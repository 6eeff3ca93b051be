/-
  Courier/Proofs/Store/Effects.lean
  =================================
  **What a poll and the effects of a completion make of a lane.**

  A poll leaves the same items pending and, once the mailbox is read, the same blocks
  (`Lane.Polled`).  The effects of a completion concern its shard alone, except that
  they post: that the placeholder blocks what the item did, if the queue goes on with
  a placeholder (`Lane.relays`), and then that the item does so no more
  (`Store.completion_messages`).
-/
import Courier.Proofs.Store.Archive
import Courier.Proofs.Store.Blocking

namespace Courier

open Courier.Time

/-! ### Polls of a lane -/

namespace Lane

variable {sharding : Sharding} {bound : WorkItemId} {now : Instant} {l l' l'' : Lane}

/-- Whether a lane is what polls leave of another one: the same items are pending, and what keeps a
    queue blocked is the same once the mailbox is read. -/
structure Polled (sharding : Sharding) (bound : WorkItemId) (l l' : Lane) : Prop where
  shard : l'.shard = l.shard
  sound : l'.Sound sharding bound
  replayed : ∀ name, l'.replayed name = l.replayed name
  blocks : ∀ queue token, l'.Blocks queue token ↔ l.Blocks queue token
  items : ∀ b ∈ l'.items, ∃ a ∈ l.items, b.Is a

theorem Step.polled {event : Event} (h : l.Step sharding now bound event l' 0 [])
    (hs : l.Sound sharding bound) : l.Polled sharding bound l' where
  shard := h.shard
  sound := by simpa using h.sound hs
  replayed := h.replayed
  blocks := h.blocks hs
  items b hb := by
    rcases h.isPending hs hb with hnew | hold
    · exact absurd (by simpa using (h.sound hs).below b hb) (Int.not_lt.2 hnew)
    · exact hold

theorem Polled.trans (h : l.Polled sharding bound l') (h' : l'.Polled sharding bound l'') :
    l.Polled sharding bound l'' where
  shard := h'.shard.trans h.shard
  sound := h'.sound
  replayed name := (h'.replayed name).trans (h.replayed name)
  blocks queue token := (h'.blocks queue token).trans (h.blocks queue token)
  items c hc := by
    obtain ⟨b, hb, hsame⟩ := h'.items c hc
    obtain ⟨a, ha, hbefore⟩ := h.items b hb
    exact ⟨a, ha, hsame.trans hbefore⟩

theorem Polled.receive (h : l.Polled sharding bound l') (messages : List BlockingMessage) :
    (l.receive messages).Polled sharding bound (l'.receive messages) where
  shard := h.shard
  sound := h.sound.receive messages
  replayed name := by
    rw [replayed_receive, replayed_receive, h.replayed, h.shard]
  blocks := h.blocks
  items := h.items

theorem sound_of_receive {messages : List BlockingMessage}
    (h : (l.receive messages).Sound sharding bound) : l.Sound sharding bound :=
  h.congr rfl rfl rfl h.blocks

/-- Whether a queue goes on with a placeholder when its head completes: no other item of it is
    linked, and it is paused, or locked at the latest by this completion. -/
def relays (l : Lane) (id : WorkItemId) : Bool :=
  match l.head id with
  | .ok (item, row) =>
    (l.successor? item.queueName id).isNone &&
      (row.isPaused || row.lock.isSome || item.lockWhenComplete.isSome)
  | .error _ => false

end Lane

namespace Store

variable {sharding : Sharding} {s : Store} {now : Instant} {lane lane' : Lane}

theorem next_polled {bound : WorkItemId} (hlane : lane.Sound sharding bound) {shard : Shard}
    (hl : s.lane? shard = some lane) (now : Instant) :
    ∃ lane', lane.Polled sharding bound lane' ∧ (s.next now shard).2 = s.setLane lane' := by
  have step : lane.Step sharding now bound (.polled lane.shard) lane.poll 0 [] := .poll
  have hpoll : lane.Polled sharding bound lane.poll := step.polled hlane
  rcases next_cases_of_lane hlane hl now with ⟨-, hrun⟩ | ⟨row, item, hclaims, hrun⟩
  · exact ⟨lane.poll, hpoll, by rw [hrun]⟩
  · refine ⟨lane.poll.lease now row item, hpoll.trans ?_, by rw [hrun]⟩
    exact (Lane.Step.claim hclaims.first hclaims.head).polled hpoll.sound

theorem shards_setLane (s : Store) (lane : Lane) :
    (s.setLane lane).lanes.map (·.shard) = s.lanes.map (·.shard) := by
  rw [← replace_zero_nil, shards_replace]

theorem mem_lanes_setLane {other : Lane} :
    other ∈ (s.setLane lane).lanes ↔
      ∃ old ∈ s.lanes, (if old.shard = lane.shard then lane else old) = other := List.mem_map

section Polled

variable (hs : s.Sound) (hl : lane ∈ s.lanes) (h : lane.Polled s.sharding s.nextId lane')

include hs h

theorem setLane_sound : (s.setLane lane').Sound := by
  rw [← replace_zero_nil]
  refine hs.replace (Int.le_refl 0) ?_ []
  rw [Int.add_zero]
  exact h.sound

include hl

theorem isOutstanding_setLane (queue : QueueRef) (token : BlockToken) :
    (s.setLane lane').IsOutstanding queue token ↔ s.IsOutstanding queue token := by
  constructor
  · rintro ⟨other, ho, hblocks⟩
    obtain ⟨old, hold, rfl⟩ := mem_lanes_setLane.1 ho
    split at hblocks
    · exact ⟨lane, hl, (h.blocks queue token).1 hblocks⟩
    · exact ⟨old, hold, hblocks⟩
  · rintro ⟨old, hold, hblocks⟩
    refine ⟨_, mem_lanes_setLane.2 ⟨old, hold, rfl⟩, ?_⟩
    split
    · rename_i hshard
      rw [hs.lane_eq hold hl (hshard.trans h.shard)] at hblocks
      exact (h.blocks queue token).2 hblocks
    · exact hblocks

theorem setLane_balanced (hb : s.Balanced) : (s.setLane lane').Balanced := by
  intro other ho name
  obtain ⟨old, hold, rfl⟩ := mem_lanes_setLane.1 ho
  split
  · rw [h.replayed, h.shard]
    refine ⟨(hb lane hl name).1, fun token => ?_⟩
    rw [isOutstanding_setLane hs hl h]
    exact (hb lane hl name).2 token
  · refine ⟨(hb old hold name).1, fun token => ?_⟩
    rw [isOutstanding_setLane hs hl h]
    exact (hb old hold name).2 token

end Polled

/-! ### What the effects of a completion are -/

/-- Whether an item may be completed does not depend on other lanes.  A completion puts the deferred
    lock on the row, moves the queue on and retires the head; the queue is kept alive if it is
    paused, or locked at the latest by then. -/
theorem completion_cases (lane : Lane) (now : Instant) (id : WorkItemId) :
    (∃ e, ∀ s : Store, s.completion now id lane = .error e) ∨
    ∃ item row locking, lane.head id = .ok (item, row) ∧
      (locking = [] ∨ ∃ lock, locking = [.putLock item.queueRef lock]) ∧
      ∀ s : Store, s.completion now id lane =
        .ok (locking ++ s.advanceEffects lane now item
            (row.isPaused || row.lock.isSome || item.lockWhenComplete.isSome) ++
          retireEffects lane item now) := by
  unfold completion
  cases hhead : lane.head id with
  | error e => exact Or.inl ⟨e, fun _ => rfl⟩
  | ok found =>
    obtain ⟨item, row⟩ := found
    obtain ⟨hfound, -, -⟩ := Lane.head_eq_ok_iff.1 hhead
    obtain ⟨-, rfl⟩ := Lane.mem_of_item? hfound
    dsimp only
    by_cases hfree : lane.blockedBy item.queueName = []
    · have hmay : ¬ lane.blockedBy item.queueName ≠ [] := fun hne => hne hfree
      simp only [if_neg hmay]
      cases hlock : item.lockWhenComplete with
      | none =>
        refine Or.inr ⟨item, row, [], rfl, Or.inl rfl, fun s => ?_⟩
        rw [hlock, Option.isSome_none, Bool.or_false]
        rfl
      | some lock =>
        have hput : ∀ s : Store, Except.ok (.putLock item.queueRef lock ::
              s.advanceEffects lane now item true ++ retireEffects lane item now) =
            (.ok ([.putLock item.queueRef lock] ++ s.advanceEffects lane now item
                (row.isPaused || row.lock.isSome || item.lockWhenComplete.isSome) ++
              retireEffects lane item now) : Except Error (List Effect)) := by
          intro s
          rw [hlock, Option.isSome_some, Bool.or_true]
          rfl
        cases hheld : row.lock with
        | none => exact Or.inr ⟨item, row, _, rfl, Or.inr ⟨lock, rfl⟩, hput⟩
        | some held =>
          dsimp only
          by_cases hsame : held = lock
          · simp only [if_pos hsame]
            exact Or.inr ⟨item, row, _, rfl, Or.inr ⟨lock, rfl⟩, hput⟩
          · simp only [if_neg hsame]
            exact Or.inl ⟨_, fun _ => rfl⟩
    · simp only [if_pos hfree]
      exact Or.inl ⟨_, fun _ => rfl⟩

theorem completion_effects {id : WorkItemId} {effects : List Effect}
    (h : s.completion now id lane = .ok effects) :
    ∃ item row locking, lane.head id = .ok (item, row) ∧
      effects = locking ++ s.advanceEffects lane now item
          (row.isPaused || row.lock.isSome || item.lockWhenComplete.isSome) ++
        retireEffects lane item now ∧
      (locking = [] ∨ ∃ lock, locking = [.putLock item.queueRef lock]) := by
  rcases completion_cases lane now id with ⟨e, hrefused⟩ | ⟨item, row, locking, hhead, hlocks, hok⟩
  · rw [hrefused] at h
    cases h
  · exact ⟨item, row, locking, hhead, (Except.ok.inj ((hok s).symm.trans h)).symm, hlocks⟩

/-- All effects of a completion concern its shard, or post to a shard of the deployment. -/
theorem isAt_of_mem_completion (hs : s.Sound) (mem : lane ∈ s.lanes) {id : WorkItemId}
    {effects : List Effect} (h : s.completion now id lane = .ok effects) :
    ∀ effect ∈ effects, effect.IsAt lane.shard (s.lanes.map (·.shard)) := by
  obtain ⟨item, row, locking, hhead, rfl, hlocking⟩ := completion_effects h
  have hitem := (Lane.mem_of_item? (Lane.head_eq_ok_iff.1 hhead).1).1
  intro effect he
  rcases List.mem_append.1 he with he | he
  · rcases List.mem_append.1 he with he | he
    · rcases hlocking with rfl | ⟨lock, rfl⟩
      · cases he
      · rw [List.mem_singleton.1 he]
        exact (hs.lanes lane mem).here item hitem
    · exact isAt_of_mem_advanceEffects hs mem hitem effect he
  · exact isAt_of_mem_retireEffects hs mem hitem effect he

def relays (s : Store) (shard : Shard) (id : WorkItemId) : Bool :=
  (s.lane? shard).any (·.relays id)

theorem messages_advanceEffects (s : Store) (lane : Lane) (now : Instant) (item : WorkItem)
    (keepAlive : Bool) :
    (s.advanceEffects lane now item keepAlive).flatMap Effect.messages =
      if (lane.successor? item.queueName item.id).isNone && keepAlive then
        item.blocking.messages true ⟨s.nextId, item.queueRef.shard⟩
      else [] := by
  unfold advanceEffects
  cases lane.successor? item.queueName item.id with
  | some next => rfl
  | none =>
    cases keepAlive with
    | false => rfl
    | true =>
      simp only [if_true, Option.isNone_none, Bool.and_true, List.cons_append, List.flatMap_cons,
        List.flatMap_append, messages_blockEffects, List.flatMap_nil, Effect.messages,
        List.nil_append, List.append_nil]

theorem messages_retireEffects (lane : Lane) (item : WorkItem) (now : Instant) :
    (retireEffects lane item now).flatMap Effect.messages =
      item.blocking.messages false ⟨item.id, lane.shard⟩ := by
  simp only [retireEffects, List.cons_append, List.flatMap_cons, List.flatMap_append,
    messages_blockEffects, List.flatMap_nil, Effect.messages, List.nil_append, List.append_nil]

/-- A completion posts that the placeholder blocks, if there is one, and then that the item does so
    no more. -/
theorem completion_messages {id : WorkItemId} {effects : List Effect}
    (h : s.completion now id lane = .ok effects) :
    ∃ item row, lane.head id = .ok (item, row) ∧
      effects.flatMap Effect.messages =
        (if lane.relays id then item.blocking.messages true ⟨s.nextId, item.shard⟩ else []) ++
          item.blocking.messages false ⟨id, lane.shard⟩ := by
  obtain ⟨item, row, locking, hhead, rfl, hlocking⟩ := completion_effects h
  obtain ⟨hitem, -, -⟩ := Lane.head_eq_ok_iff.1 hhead
  obtain ⟨-, rfl⟩ := Lane.mem_of_item? hitem
  have hnone : locking.flatMap Effect.messages = [] := by
    rcases hlocking with rfl | ⟨lock, rfl⟩ <;> rfl
  refine ⟨item, row, hhead, ?_⟩
  rw [List.flatMap_append, List.flatMap_append, hnone, messages_advanceEffects,
    messages_retireEffects, List.nil_append]
  unfold Lane.relays
  rw [hhead]
  rfl

/-! ### Effects one by one -/

theorem apply_self (hn : (s.lanes.map (·.shard)).Nodup) (hl : lane ∈ s.lanes) {effect : Effect}
    (hat : effect.IsAt lane.shard (s.lanes.map (·.shard))) :
    effect.apply s = (.ok (), s.replace (effect.onLane lane) effect.used effect.messages) := by
  have hstart : s.replace lane 0 [] = s := by rw [replace_zero_nil, setLane_self hn hl]
  have hrun := @apply_replace s lane 0 [] hn effect hat
  rwa [hstart, Int.zero_add, List.nil_append] at hrun

theorem perform_self (hn : (s.lanes.map (·.shard)).Nodup) (hl : lane ∈ s.lanes)
    {effects : List Effect}
    (hat : ∀ effect ∈ effects, effect.IsAt lane.shard (s.lanes.map (·.shard))) :
    s.perform effects = (.ok (), s.replace (effects.foldl (fun l effect => effect.onLane l) lane)
      (effects.foldl (fun n effect => n + effect.used) 0) (effects.flatMap Effect.messages)) := by
  have hstart : s.replace lane 0 [] = s := by rw [replace_zero_nil, setLane_self hn hl]
  have hrun := perform_replace (s := s) hn 0 [] hat
  rwa [hstart, List.nil_append] at hrun

/-- Whichever of two lanes is replaced first, the other one receives the messages. -/
theorem setLane_replace {other : Lane} (hne : lane.shard ≠ other.shard) (used : Int)
    (messages : List BlockingMessage) :
    (s.setLane lane).replace other used messages =
      (s.replace other used messages).setLane (lane.receive messages) := by
  unfold replace deliver setLane
  simp only [List.map_map]
  congr 1
  refine List.map_congr_left ?_
  intro third _
  dsimp only [Function.comp_apply]
  by_cases hlane : third.shard = lane.shard
  · have hkept : (third.receive messages).shard = (lane.receive messages).shard := hlane
    simp only [hlane, hne, hkept, if_true, if_false]
  · by_cases hother : third.shard = other.shard
    · have hapart : ¬ other.shard = lane.shard := fun h => hne h.symm
      have hkept : ¬ (other.receive messages).shard = (lane.receive messages).shard := hapart
      simp only [hother, hapart, hkept, if_true, if_false]
    · have hkept : ¬ (third.receive messages).shard = (lane.receive messages).shard := hlane
      simp only [hlane, hother, hkept, if_false]

end Store

theorem Effect.shard_onLane (effect : Effect) (lane : Lane) :
    (effect.onLane lane).shard = lane.shard := by cases effect <;> rfl

theorem Effect.replayed_onLane (effect : Effect) (lane : Lane) (name : String) :
    (effect.onLane lane).replayed name = lane.replayed name := by cases effect <;> rfl

end Courier
