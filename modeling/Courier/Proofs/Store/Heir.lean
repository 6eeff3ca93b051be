/-
  Courier/Proofs/Store/Heir.lean
  ==============================
  **What keeps a queue blocked while completions are under way.**

  What blocks a queue once its mailbox is read and the messages are posted that are
  left is what is outstanding in the outcome (`Bench.Steady.isOutstanding_iff`).  Polls
  leave it as it is, and an effect posts the first of the messages or none.  An item
  that keeps a queue blocked stays the same item as long as it is outstanding, and only
  a completion ends that (`Store.Heir.kept`, `Store.Call.isOutstanding`).
-/
import Courier.Proofs.Store.Bench

namespace Courier

open Courier.Time

/-! ### Messages that leave a block -/

theorem Blocking.creates_of_mem {blocking : Blocking} {token : BlockToken} {m : BlockingMessage}
    (h : m ∈ blocking.messages true token) : m.isCreatingBlock = true := by
  cases blocking with
  | none => cases h
  | queue target => rw [List.mem_singleton.1 h]

theorem Blocking.token_of_mem {blocking : Blocking} {isCreatingBlock : Bool} {token : BlockToken}
    {m : BlockingMessage} (h : m ∈ blocking.messages isCreatingBlock token) : m.token = token := by
  cases blocking with
  | none => cases h
  | queue target => rw [List.mem_singleton.1 h]

theorem blocksAfter_of_kept {messages : List BlockingMessage} {queue : QueueRef}
    {token : BlockToken} {before : Prop}
    (h : ∀ m ∈ messages, m.isCreatingBlock = true ∨ m.token ≠ token) (hbefore : before) :
    blocksAfter queue token before messages := by
  induction messages generalizing before with
  | nil => exact hbefore
  | cons m rest ih =>
    refine ih (fun other ho => h other (List.mem_cons_of_mem _ ho)) ?_
    unfold BlockingMessage.Blocks
    split
    · split
      · exact Or.inl hbefore
      · rename_i hclears
        exact ⟨hbefore, (h m List.mem_cons_self).resolve_left hclears⟩
    · exact hbefore

namespace Store

variable {sharding : Sharding} {s s' : Store} {now : Instant}

/-- The items that keep a queue blocked once its shard has read its mailbox. -/
def replayed (s : Store) (queue : QueueRef) : List BlockToken :=
  ((s.lane? queue.shard).map (·.replayed queue.name)).getD []

/-! ### Heirs -/

/-- Whether the item of a token is pending and keeps a queue blocked: it is the first item, or a
    placeholder in the queue of the first item. -/
def Heir (s : Store) (first : WorkItem) (target : QueueRef) (token : BlockToken) : Prop :=
  ∃ item, s.IsPending item ∧ item.token = token ∧ item.blocking = .queue target ∧
    item.queueRef = first.queueRef ∧ (item.id = first.id ∨ item.isPlaceholder = true)

variable {first : WorkItem} {target : QueueRef} {token : BlockToken}

theorem Heir.isOutstanding (h : s.Heir first target token) : s.IsOutstanding target token := by
  obtain ⟨item, ⟨lane, hl, hi⟩, htoken, hblocking, -⟩ := h
  exact ⟨lane, hl, item, hi, hblocking, htoken⟩

theorem Sound.pending_eq (hs : s.Sound) {a b : WorkItem} (ha : s.IsPending a)
    (hb : s.IsPending b) (hid : a.id = b.id) (hshard : a.shard = b.shard) : a = b := by
  obtain ⟨one, hone, ha⟩ := ha
  obtain ⟨other, hother, hb⟩ := hb
  have hsame : one = other := by
    refine hs.lane_eq hone hother ?_
    rw [← (hs.lanes one hone).here a ha, ← (hs.lanes other hother).here b hb, hshard]
  subst hsame
  exact (hs.lanes one hone).item_eq ha hb hid

/-- As long as it is outstanding, an heir stays what it is. -/
theorem Heir.kept (h : s.Heir first target token) (hs : s.Sound)
    (hout : s'.IsOutstanding target token)
    (hback : ∀ b, s'.IsPending b → s.nextId ≤ b.id ∨ ∃ a, s.IsPending a ∧ b.Is a) :
    s'.Heir first target token := by
  obtain ⟨item, hpending, rfl, -, hqueue, hkind⟩ := h
  obtain ⟨lane, hl, b, hb, hblocking, htoken⟩ := hout
  obtain ⟨hid, hshard⟩ := BlockToken.mk.inj htoken
  have hsame : b.Is item := by
    rcases hback b ⟨lane, hl, hb⟩ with hnew | ⟨a, ha, hsame⟩
    · rw [hid] at hnew
      exact absurd (hpending.id_lt hs) (Int.not_lt.2 hnew)
    · rwa [hs.pending_eq ha hpending (hsame.id.symm.trans hid) (hsame.shard.symm.trans hshard)]
        at hsame
  refine ⟨b, ⟨lane, hl, hb⟩, htoken, hblocking, ?_, ?_⟩
  · rw [← hqueue]
    unfold WorkItem.queueRef
    rw [hsame.queueName, hsame.shard]
  · rw [hsame.id, hsame.isPlaceholder]
    exact hkind

/-- Only a completion ends a block, and the removal of everything. -/
theorem Move.isOutstanding_of {event : Event} (h : Move now s event s') (hs : s.Sound)
    (hkept : event ≠ .cleared) (hnone : ∀ item, event ≠ .completed item)
    (hout : s.IsOutstanding target token) : s'.IsOutstanding target token := by
  cases h with
  | record jobs => exact hout
  | clear => exact absurd rfl hkept
  | @lane lane lane' event used messages mem step =>
    rw [hs.isOutstanding_replace mem step]
    refine blocksAfter_of_kept ?_ hout
    intro m hm
    cases step with
    | file isFor here single => exact Or.inl (Blocking.creates_of_mem hm)
    | advance head free locked successor => exact absurd rfl (hnone _)
    | relay head free locked last kept => exact absurd rfl (hnone _)
    | finish head free unlocked last given => exact absurd rfl (hnone _)
    | _ => cases hm

theorem Call.isOutstanding {c : Call sharding} (hs : s.Sound) (hsharding : s.sharding = sharding)
    (hc : ∀ id shard, c.request ≠ .operate (.complete id shard))
    (hkept : c.request ≠ .operate .clear) (h : s.IsOutstanding target token) :
    (c.run s).2.IsOutstanding target token := by
  obtain ⟨events, hmoves, haccounts⟩ := c.traced hs hsharding
  have hnone : ∀ event ∈ events, event ≠ .cleared ∧ ∀ item, event ≠ .completed item := by
    intro event he
    constructor
    · rintro rfl
      exact hkept (haccounts.clears he)
    · rintro item rfl
      have hretired : item ∈ events.flatMap (·.retired) :=
        List.mem_flatMap.2 ⟨_, he, List.mem_singleton_self item⟩
      rw [haccounts.completed] at hretired
      rcases c.completed_cases s with hempty | ⟨id, shard, -, hcomplete, -⟩
      · rw [hempty] at hretired
        cases hretired
      · exact hc id shard hcomplete
  clear haccounts
  generalize (c.run s).2 = s' at hmoves
  induction hmoves with
  | nil s => exact h
  | cons move rest ih =>
    obtain ⟨hkept, hnot⟩ := hnone _ List.mem_cons_self
    refine ih (move.sound hs) (move.sharding.trans hsharding) ?_ fun event he =>
      hnone event (List.mem_cons_of_mem _ he)
    exact move.isOutstanding_of hs hkept hnot h

end Store

namespace Bench

variable {sharding : Sharding} {b : Bench} {clock : Clock} {shard : Shard} {id : WorkItemId}
variable {target : QueueRef} {token : BlockToken} {first : WorkItem}

/-! ### What keeps a queue blocked on a bench -/

theorem replayed_finished (b : Bench) (lane : Lane) (name : String) :
    (b.finished lane).replayed name = lane.replayed name := by
  unfold finished
  induction b.left generalizing lane with
  | nil => rfl
  | cons effect effects ih => exact (ih _).trans (effect.replayed_onLane lane name)

namespace Steady

theorem exists_lane (h : b.Steady sharding) (hshard : shard ∈ sharding.shards) :
    ∃ lane, b.store.lane? shard = some lane := by
  rw [← h.sharding, ← h.shards] at hshard
  obtain ⟨lane, hl, rfl⟩ := List.mem_map.1 hshard
  exact ⟨lane, Keyed.find?_of_mem h.nodup hl⟩

/-- What is outstanding in the outcome is what blocks once the mailbox is read and the messages are
    posted that are left. -/
theorem isOutstanding_iff (h : b.Steady sharding) (hknown : target.shard ∈ sharding.shards) :
    b.outcome.IsOutstanding target token ↔
      blocksAfter target token (token ∈ b.store.replayed target) b.posts := by
  obtain ⟨lane, hl⟩ := h.exists_lane hknown
  obtain ⟨after, hafter, hshard, hreplayed⟩ : ∃ after : Lane,
      b.outcome.lane? target.shard = some (after.receive b.posts) ∧ after.shard = target.shard ∧
        after.replayed target.name = lane.replayed target.name := by
    -- the effects that are left change neither the mailbox of their own shard nor what blocks there
    by_cases hfree : b.IsFree target.shard
    · refine ⟨lane, ?_, (Store.mem_of_lane? hl).2, rfl⟩
      rw [h.lane?_outcome hfree, hl]
      rfl
    · have hhere : target.shard = b.shard :=
        Decidable.not_not.1 fun hne => hfree (Or.inr hne)
      have hat : target.shard = (b.finished lane).shard := by
        rw [shard_finished, (Store.mem_of_lane? hl).2]
      refine ⟨b.finished lane, ?_, hat.symm, replayed_finished b lane target.name⟩
      rw [h.outcome_eq (hhere ▸ hl), Store.lane?_replace, if_pos hat, hl]
      rfl
  obtain ⟨hmem, -⟩ := Store.mem_of_lane? hafter
  have hmembers := (h.balanced _ hmem target.name).2 token
  have hqueue : (⟨target.name, (after.receive b.posts).shard⟩ : QueueRef) = target := by
    show (⟨target.name, after.shard⟩ : QueueRef) = target
    rw [hshard]
  rw [hqueue, Lane.mem_replayed_receive, hreplayed, hshard] at hmembers
  unfold Store.replayed
  rw [hl]
  exact hmembers.symm

theorem isOutstanding_rest (h : b.Steady sharding) (hknown : target.shard ∈ sharding.shards)
    (hrest : b.left = []) :
    b.store.IsOutstanding target token ↔ token ∈ b.store.replayed target := by
  have hiff : b.outcome.IsOutstanding target token ↔ _ := h.isOutstanding_iff hknown
  rwa [posts_of_rest hrest, outcome_of_rest hrest] at hiff

/-- A poll reads a mailbox, and leaves what blocks once it is read. -/
theorem replayed_poll (h : b.Steady sharding) (clock : Clock) (shard : Shard)
    (target : QueueRef) :
    (b.step (.poll clock shard : Act sharding)).store.replayed target =
        b.store.replayed target ∧
      (b.step (.poll clock shard : Act sharding)).posts = b.posts := by
  rcases h.poll_cases clock shard with hstep | ⟨lane, lane', hpolls, hstep, -⟩
  · rw [hstep]
    exact ⟨rfl, rfl⟩
  · rw [hstep]
    refine ⟨?_, rfl⟩
    unfold Store.replayed
    rw [Store.lane?_setLane]
    by_cases hhere : target.shard = lane'.shard
    · have hfound : b.store.lane? target.shard = some lane := by
        rw [hhere, hpolls.polled.shard, (Store.mem_of_lane? hpolls.here).2, hpolls.here]
      rw [if_pos hhere, hfound]
      exact hpolls.polled.replayed target.name
    · rw [if_neg hhere]

/-- An effect posts the first of the messages that are left, or none. -/
theorem replayed_effect (h : b.Steady sharding) (hknown : target.shard ∈ sharding.shards)
    {effect : Effect} {effects : List Effect} (hleft : b.left = effect :: effects) :
    b.posts = effect.messages ++ (b.step (.effect : Act sharding)).posts ∧
      ∀ token, token ∈ (b.step (.effect : Act sharding)).store.replayed target ↔
        blocksAfter target token (token ∈ b.store.replayed target) effect.messages := by
  obtain ⟨lane, hl, hstep⟩ := h.effect_eq hleft
  obtain ⟨other, hother⟩ := h.exists_lane hknown
  rw [hstep]
  constructor
  · unfold posts
    rw [hleft]
    rfl
  · intro token
    unfold Store.replayed
    rw [Store.lane?_replace, hother]
    by_cases hhere : target.shard = (effect.onLane lane).shard
    · have hfound : other = lane := by
        rw [hhere, effect.shard_onLane, (Store.mem_of_lane? hl).2, hl] at hother
        exact (Option.some.inj hother).symm
      subst hfound
      rw [if_pos hhere]
      show token ∈ ((effect.onLane other).receive effect.messages).replayed target.name ↔ _
      rw [Lane.mem_replayed_receive, effect.replayed_onLane, ← hhere]
      exact Iff.rfl
    · rw [if_neg hhere]
      show token ∈ (other.receive effect.messages).replayed target.name ↔ _
      rw [Lane.mem_replayed_receive, (Store.mem_of_lane? hother).2]
      exact Iff.rfl

end Steady

end Bench

end Courier
