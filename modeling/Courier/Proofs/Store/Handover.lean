/-
  Courier/Proofs/Store/Handover.lean
  ==================================
  **A block is inherited without a gap.**

  When the last linked item of a paused or locked queue completes, a placeholder takes
  its place, and takes over what the item kept blocked.  The message that the
  placeholder blocks is posted before the one that the item does so no more, and a
  mailbox keeps their order, so whatever part of them has been read, one of the two
  blocks (`Bench.Watch.Keeps`).  This goes on from placeholder to placeholder, until
  one of them completes while its queue needs none (`Bench.Watch.next`).  Up to that
  moment no poll hands out an item of the blocked queue, be it between the effects of a
  completion (`Bench.handed_over_without_gap`).
-/
import Courier.Proofs.Store.Heir
import Courier.Proofs.Store.Locks

namespace Courier

open Courier.Time

namespace Bench

variable {sharding : Sharding} {b : Bench} {clock : Clock} {shard : Shard} {id : WorkItemId}
variable {target : QueueRef} {token : BlockToken} {first : WorkItem}

/-! ### Watching a block -/

/-- What keeps a queue blocked, of an item and the placeholders that take its place one after
    another. -/
inductive Watch where
  | held (token : BlockToken)
  /-- The last of them, while it completes. -/
  | ending
  | lifted
deriving DecidableEq

def Act.clears : Act sharding → Bool
  | .call ⟨_, .operate .clear⟩ _ => true
  | _ => false

/-- What the block is kept by after an act.  The block is handed on when the item or placeholder
    that keeps it begins to complete and its queue goes on with a placeholder; otherwise it ends
    with that completion. -/
def Watch.next (b : Bench) (act : Act sharding) : Watch → Watch
  | .held token =>
    match act with
    | .begin_ clock id shard =>
      if token = ⟨id, shard⟩ ∧ (b.plan? clock id shard).isSome then
        if b.store.relays shard id then .held ⟨b.store.nextId, shard⟩ else .ending
      else .held token
    | act => if act.clears ∧ b.left = [] then .lifted else .held token
  | .ending => if (b.step act).posts = [] then .lifted else .ending
  | .lifted => .lifted

def watch (b : Bench) (w : Watch) : List (Act sharding) → Watch
  | [] => w
  | act :: acts => (b.step act).watch (w.next b act) acts

/-- What is true of a bench while the block is kept: whatever part of the messages that are left
    arrives, something blocks the queue, and the outcome has the heir. -/
def Watch.Keeps (b : Bench) (first : WorkItem) (target : QueueRef) : Watch → Prop
  | .held token =>
    (∀ arrived, arrived <+: b.posts → ∃ token,
      blocksAfter target token (token ∈ b.store.replayed target) arrived) ∧
    b.outcome.Heir first target token
  | .ending => (∃ last, b.posts = [last]) ∧ ∃ token, token ∈ b.store.replayed target
  | .lifted => True

namespace Watch

theorem Keeps.blocked {w : Watch} (h : w.Keeps b first target) (hw : w ≠ .lifted) :
    ∃ token, token ∈ b.store.replayed target := by
  cases w with
  | held token => exact h.1 [] List.nil_prefix
  | ending => exact h.2
  | lifted => exact absurd rfl hw

theorem keeps_rest (h : b.Steady sharding) (hknown : target.shard ∈ sharding.shards)
    (hrest : b.left = []) (hheir : b.store.Heir first target token) :
    (held token).Keeps b first target := by
  constructor
  · intro arrived harrived
    rw [posts_of_rest hrest, List.prefix_nil] at harrived
    rw [harrived]
    exact ⟨token, (h.isOutstanding_rest hknown hrest).1 hheir.isOutstanding⟩
  · rwa [outcome_of_rest hrest]

variable {w : Watch}

theorem Keeps.idle (hk : w.Keeps b first target) {act : Act sharding} (hstep : b.step act = b)
    (hheld : ∀ token, w = held token → next b act (held token) = held token) :
    (w.next b act).Keeps (b.step act) first target := by
  rw [hstep]
  cases w with
  | lifted => trivial
  | held token =>
    rw [hheld token rfl]
    exact hk
  | ending =>
    obtain ⟨⟨last, hlast⟩, hblocked⟩ := hk
    have hnext : next b act ending = ending := by
      refine if_neg ?_
      rw [hstep, hlast]
      exact List.cons_ne_nil _ _
    rw [hnext]
    exact ⟨⟨last, hlast⟩, hblocked⟩

theorem Keeps.not_ending_at_rest (hk : ending.Keeps b first target) : b.left ≠ [] := by
  intro hrest
  obtain ⟨⟨last, hlast⟩, -⟩ := hk
  rw [posts_of_rest hrest] at hlast
  cases hlast

theorem heir_poll (h : b.Steady sharding) (hheir : b.outcome.Heir first target token)
    (clock : Clock) (shard : Shard) :
    (b.step (.poll clock shard : Act sharding)).outcome.Heir first target token := by
  rcases h.poll_cases clock shard with hstep | ⟨lane, lane', hpolls, -, houtcome⟩
  · rwa [hstep]
  · have hreceived := hpolls.polled.receive b.posts
    rw [houtcome]
    refine hheir.kept h.sound ?_ ?_
    · exact (Store.isOutstanding_setLane h.sound hpolls.there hreceived target token).2
        hheir.isOutstanding
    · rintro item ⟨other, ho, hi⟩
      obtain ⟨old, hold, rfl⟩ := Store.mem_lanes_setLane.1 ho
      split at hi
      · obtain ⟨a, ha, hsame⟩ := hreceived.items item hi
        exact Or.inr ⟨a, ⟨_, hpolls.there, ha⟩, hsame⟩
      · exact Or.inr ⟨item, ⟨old, hold, hi⟩, .refl item⟩

theorem Keeps.poll (hk : w.Keeps b first target) (h : b.Steady sharding) (clock : Clock)
    (shard : Shard) :
    (w.next b (.poll clock shard : Act sharding)).Keeps
      (b.step (.poll clock shard : Act sharding)) first target := by
  obtain ⟨hreplayed, hposts⟩ := h.replayed_poll clock shard target
  cases w with
  | lifted => trivial
  | ending =>
    obtain ⟨⟨last, hlast⟩, hblocked⟩ := hk
    have hnext : next b (.poll clock shard : Act sharding) ending = ending := by
      refine if_neg ?_
      rw [hposts, hlast]
      exact List.cons_ne_nil _ _
    rw [hnext]
    refine ⟨⟨last, hposts.trans hlast⟩, ?_⟩
    rwa [hreplayed]
  | held token =>
    obtain ⟨hcovered, hheir⟩ := hk
    rw [show next b (.poll clock shard : Act sharding) (held token) = held token from rfl]
    refine ⟨?_, heir_poll h hheir clock shard⟩
    rw [hposts, hreplayed]
    exact hcovered

theorem Keeps.call (hk : w.Keeps b first target) (h : b.Steady sharding)
    (hknown : target.shard ∈ sharding.shards) (c : Store.Call sharding)
    (noneCompleted : ∀ id shard, c.request ≠ .operate (.complete id shard)) :
    (w.next b (.call c noneCompleted)).Keeps (b.step (.call c noneCompleted)) first target := by
  by_cases hrest : b.left = []
  · cases w with
    | lifted => trivial
    | ending => exact absurd hrest hk.not_ending_at_rest
    | held token =>
      by_cases hclears : (Act.call c noneCompleted).clears = true
      · rw [show next b (.call c noneCompleted) (held token) = lifted from if_pos ⟨hclears, hrest⟩]
        trivial
      · rw [show next b (.call c noneCompleted) (held token) = held token from
          if_neg fun hboth => hclears hboth.1]
        have hs := h.sound_rest hrest
        have hheir : b.store.Heir first target token := outcome_of_rest hrest ▸ hk.2
        have hkept : c.request ≠ .operate .clear := by
          intro hc
          apply hclears
          obtain ⟨clock, request⟩ := c
          subst hc
          rfl
        have hstep : b.step (.call c noneCompleted) = { b with store := (c.run b.store).2 } :=
          if_pos hrest
        refine keeps_rest (h.step _) hknown ?_ ?_
        · rw [hstep]
          exact hrest
        · rw [hstep]
          refine hheir.kept hs ?_ fun item => c.isPending hs h.sharding
          exact c.isOutstanding hs h.sharding noneCompleted hkept hheir.isOutstanding
  · refine hk.idle (if_neg hrest) fun token _ => ?_
    exact if_neg fun hboth => hrest hboth.2

theorem Keeps.effect (hk : w.Keeps b first target) (h : b.Steady sharding)
    (hknown : target.shard ∈ sharding.shards) :
    (w.next b (.effect : Act sharding)).Keeps (b.step (.effect : Act sharding)) first target := by
  cases hleft : b.left with
  | nil => exact hk.idle (step_of_no_effect hleft) fun token _ => rfl
  | cons effect effects =>
    obtain ⟨hposts, hreplayed⟩ := h.replayed_effect hknown hleft
    cases w with
    | lifted => trivial
    | ending =>
      obtain ⟨⟨last, hlast⟩, token, hblocked⟩ := hk
      by_cases hdone : (b.step (.effect : Act sharding)).posts = []
      · rw [show next b (.effect : Act sharding) ending = lifted from if_pos hdone]
        trivial
      · rw [show next b (.effect : Act sharding) ending = ending from if_neg hdone]
        -- the last message is still to come, so this effect posts nothing
        rw [hlast] at hposts
        have hnone : effect.messages = [] := by
          rcases List.singleton_eq_append_iff.1 hposts with ⟨hnone, -⟩ | ⟨-, hnil⟩
          · exact hnone
          · exact absurd hnil hdone
        rw [hnone] at hposts hreplayed
        exact ⟨⟨last, hposts.symm⟩, token, (hreplayed token).2 hblocked⟩
    | held token =>
      rw [show next b (.effect : Act sharding) (held token) = held token from rfl]
      obtain ⟨hcovered, hheir⟩ := hk
      constructor
      · intro arrived harrived
        obtain ⟨blocker, hblocks⟩ := hcovered (effect.messages ++ arrived)
          (hposts ▸ (List.prefix_append_right_inj _).2 harrived)
        refine ⟨blocker, ?_⟩
        rwa [propext (hreplayed blocker), ← blocksAfter_append]
      · rwa [outcome_effect]

/-! ### Completions that begin -/

/-- What is known when a completion begins: the item heads its queue, and the messages are known
    that are to be posted. -/
structure Begins (b : Bench) (clock : Clock) (id : WorkItemId) (shard : Shard) (lane : Lane)
    (effects : List Effect) (item : WorkItem) (row : Row) : Prop where
  rest : b.left = []
  plan : b.plan? clock id shard = some effects
  here : b.store.lane? shard = some lane
  completion : b.store.completion clock.storeNow id lane = .ok effects
  head : lane.head id = .ok (item, row)
  mem : item ∈ lane.items
  posts : effects.flatMap Effect.messages =
    (if lane.relays id then item.blocking.messages true ⟨b.store.nextId, shard⟩ else []) ++
      item.blocking.messages false ⟨id, shard⟩
  id : item.id = id
  shard : item.shard = shard

theorem exists_begins (h : b.Steady sharding) {effects : List Effect}
    (hplan : b.plan? clock id shard = some effects) :
    ∃ lane item row, Begins b clock id shard lane effects item row := by
  obtain ⟨hrest, lane, hl, hcompletion⟩ := plan?_eq_some.1 hplan
  have hs := h.sound_rest hrest
  obtain ⟨item, row, hhead, hposts⟩ := Store.completion_messages hcompletion
  obtain ⟨-, hshard⟩ := Store.mem_of_lane? hl
  obtain ⟨hitem, hid⟩ := Lane.mem_of_item? (Lane.head_eq_ok_iff.1 hhead).1
  have hat : item.shard = shard := ((hs.lane hl).here item hitem).trans hshard
  rw [hshard, hat] at hposts
  exact ⟨lane, item, row, hrest, hplan, hl, hcompletion, hhead, hitem, hposts, hid, hat⟩

section Begins

variable {lane : Lane} {effects : List Effect} {item : WorkItem} {row : Row}
variable (h : b.Steady sharding) (hb : Begins b clock id shard lane effects item row)

include h hb

/-- A queue that goes on with a placeholder has an heir for what the head keeps blocked. -/
theorem heir_begin (hrelays : lane.relays id = true) (hblocking : item.blocking = .queue target)
    (hqueue : item.queueRef = first.queueRef) :
    (b.step (.begin_ clock id shard : Act sharding)).outcome.Heir first target
      ⟨b.store.nextId, shard⟩ := by
  have hs := h.sound_rest hb.rest
  obtain ⟨hmem, hshard⟩ := Store.mem_of_lane? hb.here
  obtain ⟨found, other, locked, lane', used, messages, rfl, hcompletes⟩ :=
    Store.exists_completes hs hb.here hb.completion
  obtain ⟨rfl, rfl⟩ := Prod.mk.inj (Except.ok.inj (hcompletes.head.symm.trans hb.head))
  unfold Lane.relays at hrelays
  rw [hcompletes.head] at hrelays
  obtain ⟨hlast, hheld⟩ := Bool.and_eq_true_iff.1 hrelays
  have hkept : other.hold ≠ .free ∨ found.lockWhenComplete ≠ none := by
    unfold Row.hold Hold.free
    cases hpaused : other.isPaused <;> cases hlock : other.lock <;>
      cases hdeferred : found.lockWhenComplete <;> simp_all
  obtain ⟨-, -, -, hplaceholder, -, -⟩ :=
    hcompletes.placeholder hs (Option.isNone_iff_eq_none.1 hlast) hkept
  obtain ⟨hin, -⟩ := Lane.mem_of_item? hplaceholder
  refine ⟨_, ⟨lane'.receive messages, ?_, hin⟩, rfl, hblocking, ?_, Or.inr rfl⟩
  · rw [outcome_begin hb.rest, hcompletes.run]
    refine Store.mem_replace.2 ⟨lane, hmem, ?_⟩
    rw [if_pos hcompletes.shard.symm]
  · rw [← hqueue, ← hb.shard]
    rfl

/-- Before the message of the placeholder arrives the item blocks, and from then on the
    placeholder does. -/
theorem keeps_relayed
    (hblocked : (⟨id, shard⟩ : BlockToken) ∈ b.store.replayed target)
    (hblocking : item.blocking = .queue target) (hqueue : item.queueRef = first.queueRef)
    (hrelays : lane.relays id = true) :
    (held ⟨b.store.nextId, shard⟩).Keeps (b.step (.begin_ clock id shard : Act sharding)) first
      target := by
  have hs := h.sound_rest hb.rest
  have hposts := hb.posts
  rw [hrelays, if_pos rfl, hblocking] at hposts
  refine ⟨?_, heir_begin h hb hrelays hblocking hqueue⟩
  rw [step_begin hb.plan]
  intro arrived harrived
  have harrived' : arrived <+: effects.flatMap Effect.messages := harrived
  rw [hposts] at harrived'
  rcases List.prefix_cons_iff.1 harrived' with rfl | ⟨rest, rfl, hrest⟩
  · exact ⟨_, hblocked⟩
  · -- what arrives after the first message is about the item, whose number is an older one
    refine ⟨⟨b.store.nextId, shard⟩, ?_⟩
    show blocksAfter target _ (BlockingMessage.Blocks target _ _ _) rest
    refine blocksAfter_of_kept ?_ ?_
    · intro m hm
      have hin : m ∈ (Blocking.queue target).messages false ⟨id, shard⟩ := hrest.subset hm
      have hlast : m.token = ⟨id, shard⟩ := Blocking.token_of_mem hin
      have hlt : item.id < b.store.nextId := (hs.lane hb.here).below item hb.mem
      rw [hb.id] at hlt
      rw [hlast]
      exact Or.inr fun hsame => Int.ne_of_lt hlt (congrArg BlockToken.workItemId hsame)
    · unfold BlockingMessage.Blocks
      simp

/-- The completion of another item posts nothing that ends the block. -/
theorem keeps_apart (hknown : target.shard ∈ sharding.shards)
    (hheir : b.store.Heir first target token) (hblocked : token ∈ b.store.replayed target)
    (hother : token ≠ ⟨id, shard⟩) :
    (held token).Keeps (b.step (.begin_ clock id shard : Act sharding)) first target := by
  have hs := h.sound_rest hb.rest
  have hposts : (b.step (.begin_ clock id shard : Act sharding)).posts =
      effects.flatMap Effect.messages := by
    rw [step_begin hb.plan]
    rfl
  have hkept : ∀ m ∈ (b.step (.begin_ clock id shard : Act sharding)).posts,
      m.isCreatingBlock = true ∨ m.token ≠ token := by
    intro m hm
    rw [hposts, hb.posts] at hm
    rcases List.mem_append.1 hm with hm | hm
    · split at hm
      · exact Or.inl (Blocking.creates_of_mem hm)
      · cases hm
    · exact Or.inr fun hsame => hother (hsame.symm.trans (Blocking.token_of_mem hm))
  have hstill : token ∈
      (b.step (.begin_ clock id shard : Act sharding)).store.replayed target := by
    rw [step_begin hb.plan]
    exact hblocked
  constructor
  · intro arrived harrived
    exact ⟨token, blocksAfter_of_kept (fun m hm => hkept m (harrived.subset hm)) hstill⟩
  · let c : Store.Call sharding := ⟨clock, .operate (.complete id shard)⟩
    have houtcome : (b.step (.begin_ clock id shard : Act sharding)).outcome =
        (c.run b.store).2 := outcome_begin_run hb.rest clock id shard
    refine hheir.kept hs ?_ ?_
    · rw [(h.step _).isOutstanding_iff hknown]
      exact blocksAfter_of_kept hkept hstill
    · rw [houtcome]
      exact fun other => c.isPending hs h.sharding

end Begins

theorem Keeps.begin_ (hk : w.Keeps b first target) (h : b.Steady sharding)
    (hknown : target.shard ∈ sharding.shards) (clock : Clock) (id : WorkItemId) (shard : Shard) :
    (w.next b (.begin_ clock id shard : Act sharding)).Keeps
      (b.step (.begin_ clock id shard : Act sharding)) first target := by
  cases hplan : b.plan? clock id shard with
  | none =>
    refine hk.idle (step_of_no_plan hplan) fun token _ => if_neg ?_
    rintro ⟨-, hsome⟩
    rw [hplan] at hsome
    cases hsome
  | some effects =>
    obtain ⟨lane, item, row, hb⟩ := exists_begins h hplan
    cases w with
    | lifted => trivial
    | ending => exact absurd hb.rest hk.not_ending_at_rest
    | held token =>
      have hs := h.sound_rest hb.rest
      have hheir : b.store.Heir first target token := outcome_of_rest hb.rest ▸ hk.2
      have hblocked := (h.isOutstanding_rest hknown hb.rest).1 hheir.isOutstanding
      -- the heir itself completes, or another item does
      by_cases hmine : token = ⟨id, shard⟩
      · subst hmine
        obtain ⟨heir, hpending, htoken, hblocking, hqueue, -⟩ := hheir
        obtain ⟨hid, hshard⟩ := BlockToken.mk.inj htoken
        obtain rfl : heir = item := by
          have hitem : b.store.IsPending item := ⟨lane, (Store.mem_of_lane? hb.here).1, hb.mem⟩
          exact hs.pending_eq hpending hitem (hid.trans hb.id.symm) (hshard.trans hb.shard.symm)
        have hrelays : b.store.relays shard id = lane.relays id := by
          unfold Store.relays
          rw [hb.here]
          rfl
        have hnext : next b (.begin_ clock id shard : Act sharding) (held ⟨id, shard⟩) =
            if lane.relays id then held ⟨b.store.nextId, shard⟩ else ending := by
          rw [← hrelays]
          exact if_pos ⟨rfl, hplan ▸ rfl⟩
        rw [hnext]
        cases hrelayed : lane.relays id with
        | true =>
          exact keeps_relayed h hb hblocked hblocking hqueue hrelayed
        | false =>
          have hposts := hb.posts
          rw [hrelayed, hblocking] at hposts
          rw [step_begin hplan]
          exact ⟨⟨_, hposts⟩, _, hblocked⟩
      · rw [show next b (.begin_ clock id shard : Act sharding) (held token) = held token from
          if_neg fun hboth => hmine hboth.1]
        exact keeps_apart h hb hknown hheir hblocked hmine

theorem Keeps.step (hk : w.Keeps b first target) (h : b.Steady sharding)
    (hknown : target.shard ∈ sharding.shards) (act : Act sharding) :
    (w.next b act).Keeps (b.step act) first target := by
  cases act with
  | call c noneCompleted => exact hk.call h hknown c noneCompleted
  | poll clock shard => exact hk.poll h clock shard
  | begin_ clock id shard => exact hk.begin_ h hknown clock id shard
  | effect => exact hk.effect h hknown

theorem Keeps.after (hk : w.Keeps b first target) (h : b.Steady sharding)
    (hknown : target.shard ∈ sharding.shards) (acts : List (Act sharding)) :
    (b.watch w acts).Keeps (b.after acts) first target := by
  induction acts generalizing b w with
  | nil => exact hk
  | cons act acts ih => exact ih (hk.step h hknown act) (h.step act)

end Watch

/-- A poll of the shard of a queue that something blocks, be it by a message in the mailbox, hands
    out no item of the queue, and leaves it blocked. -/
theorem Steady.next_of_blocked (h : b.Steady sharding) (hfree : b.IsFree target.shard)
    (hblocked : ∃ token, token ∈ b.store.replayed target) (now : Instant) :
    (∀ other, (b.store.next now target.shard).1 = .ok (some other) → other.queueRef ≠ target) ∧
      (b.store.next now target.shard).2.blockedBy target ≠ [] := by
  obtain ⟨token, htoken⟩ := hblocked
  cases hl : b.store.lane? target.shard with
  | none =>
    unfold Store.replayed at htoken
    rw [hl] at htoken
    cases htoken
  | some lane =>
    obtain ⟨hmem, hshard⟩ := Store.mem_of_lane? hl
    have hreceived : b.outcome.lane? target.shard = some (lane.receive b.posts) := by
      rw [h.lane?_outcome hfree, hl]
      rfl
    have hlane := Lane.sound_of_receive (h.sound.lane hreceived)
    have hreplayed : lane.replayed target.name ≠ [] := by
      unfold Store.replayed at htoken
      rw [hl] at htoken
      exact List.ne_nil_of_mem htoken
    have hset : ∀ lane' : Lane, lane'.shard = lane.shard →
        lane'.blockedBy target.name = lane.replayed target.name →
        (b.store.setLane lane').blockedBy target ≠ [] := by
      intro lane' hsame hblocks
      unfold Store.blockedBy
      rw [Store.lane?_setLane_self hl hsame]
      show lane'.blockedBy target.name ≠ []
      rwa [hblocks]
    rcases Store.next_cases_of_lane hlane hl now with ⟨-, hrun⟩ | ⟨row, item, hclaims, hrun⟩
    · rw [hrun]
      refine ⟨?_, hset _ (Lane.shard_poll lane) (Lane.blockedBy_poll lane target.name)⟩
      intro other hother
      cases hother
    · rw [hrun]
      refine ⟨?_, hset _ (Lane.shard_poll lane) (Lane.blockedBy_poll lane target.name)⟩
      intro other hother hqueue
      obtain rfl := Option.some.inj (Except.ok.inj hother)
      have hcandidate := hlane.poll.isCandidate hclaims.first hclaims.head
      have hname : row.name = target.name := by
        rw [← hcandidate.name, ← hqueue]
        rfl
      apply hreplayed
      rw [← Lane.blockedBy_poll, ← hname]
      exact hcandidate.claimable.2.2.2.2

/-- Whatever an item keeps blocked stays blocked while the item and the placeholders that take its
    place complete one after another, each of them while its queue is paused or locked and has no
    other linked item.  Up to the last of the messages of the first completion of which this is not
    so, no poll hands out an item of the blocked queue, between the effects of completions either;
    at rest the block is kept by a placeholder in the queue of the item, or by the item. -/
theorem handed_over_without_gap (acts : List (Act sharding)) (item : WorkItem) (target : QueueRef)
    (hrest : (reached acts).left = []) (hpending : (reached acts).store.IsPending item)
    (hblocks : item.blocking = .queue target) (more : List (Act sharding))
    (hkept : (reached acts).watch (.held item.token) more ≠ .lifted) :
    ((reached (acts ++ more)).left = [] → ∀ token,
      (reached acts).watch (.held item.token) more = .held token →
      (reached (acts ++ more)).store.Heir item target token) ∧
    ((reached (acts ++ more)).IsFree target.shard → ∀ now,
      (∀ other, ((reached (acts ++ more)).store.next now target.shard).1 = .ok (some other) →
        other.queueRef ≠ target) ∧
      ((reached (acts ++ more)).store.next now target.shard).2.blockedBy target ≠ []) := by
  have hsteady := steady_reached acts
  have hs := hsteady.sound_rest hrest
  have hknown : target.shard ∈ sharding.shards := by
    obtain ⟨lane, hl, hi⟩ := hpending
    have hmem := hs.known_target hl hi target hblocks
    rwa [hsteady.shards, hsteady.sharding] at hmem
  have hheir : (reached acts).store.Heir item target item.token :=
    ⟨item, hpending, rfl, hblocks, rfl, Or.inl rfl⟩
  have hkeeps := (Watch.keeps_rest hsteady hknown hrest hheir).after hsteady hknown more
  have hlater : reached (acts ++ more) = (reached acts).after more := List.foldl_append
  have hsteady' := steady_reached (acts ++ more)
  rw [hlater] at hsteady' ⊢
  constructor
  · intro hrest' token hheld
    rw [hheld] at hkeeps
    exact outcome_of_rest hrest' ▸ hkeeps.2
  · intro hfree now
    exact hsteady'.next_of_blocked hfree (hkeeps.blocked hkept) now

/-- An item that locks its queue blocks a queue on another shard; both shards were polled. -/
def lockingItemClaimed : List (Act { count := 3 }) :=
  [.call ⟨{ origin := ⟨10⟩ }, .operate (.enqueue ""
      { url := "http://h/1", queue := some "c", blocks := some "a",
        lockWhenComplete := some "L" })⟩ (fun _ _ h => nomatch h),
   .call ⟨{ origin := ⟨11⟩ }, .operate (.enqueue "" { url := "http://h/2", queue := some "a" })⟩
     (fun _ _ h => nomatch h),
   .poll { origin := ⟨12⟩ } ⟨0, 3⟩,
   .poll { origin := ⟨12⟩ } ⟨1, 3⟩]

/-- The item completes, and the blocked queue is polled between the two messages; the lock is taken
    off, the placeholder is claimed and completes while its queue is paused. -/
def relayedTwice : List (Act { count := 3 }) :=
  [.begin_ { origin := ⟨13⟩ } 1 ⟨1, 3⟩, .effect, .effect, .effect, .effect, .effect,
   .poll { origin := ⟨14⟩ } ⟨0, 3⟩, .effect, .effect,
   .call ⟨{ origin := ⟨15⟩ }, .operate (.unlock ⟨"c", ⟨1, 3⟩⟩ "L")⟩ (fun _ _ h => nomatch h),
   .poll { origin := ⟨16⟩ } ⟨1, 3⟩,
   .call ⟨{ origin := ⟨17⟩ }, .operate (.pause ⟨"c", ⟨1, 3⟩⟩)⟩ (fun _ _ h => nomatch h),
   .begin_ { origin := ⟨18⟩ } 3 ⟨1, 3⟩, .effect, .effect, .effect, .effect]

theorem queue_stays_blocked_while_relayed :
    (reached lockingItemClaimed).left = [] ∧
    (∃ item, (reached lockingItemClaimed).store.IsPending item ∧
      item.blocking = .queue ⟨"a", ⟨0, 3⟩⟩ ∧
      (reached lockingItemClaimed).watch (.held item.token) relayedTwice = .held ⟨4, ⟨1, 3⟩⟩) ∧
    (reached (lockingItemClaimed ++ relayedTwice)).IsFree ⟨0, 3⟩ ∧
    ∀ now other, ((reached (lockingItemClaimed ++ relayedTwice)).store.next now ⟨0, 3⟩).1 =
      .ok (some other) → other.queueRef ≠ ⟨"a", ⟨0, 3⟩⟩ := by
  have hrest : (reached lockingItemClaimed).left = [] := by decide +kernel
  have hfree : (reached (lockingItemClaimed ++ relayedTwice)).IsFree ⟨0, 3⟩ := by decide +kernel
  obtain ⟨item, hitem, hblocking, hshard⟩ : ∃ item,
      (reached lockingItemClaimed).store.item? ⟨1, 3⟩ 1 = some item ∧
        item.blocking = .queue ⟨"a", ⟨0, 3⟩⟩ ∧ item.shard = ⟨1, 3⟩ :=
    ⟨((reached lockingItemClaimed).store.item? ⟨1, 3⟩ 1).get (by decide +kernel),
      by decide +kernel, by decide +kernel, by decide +kernel⟩
  obtain ⟨hpending, hid⟩ := Store.isPending_of_item? hitem
  have hwatch : (reached lockingItemClaimed).watch (.held item.token) relayedTwice =
      .held ⟨4, ⟨1, 3⟩⟩ := by
    unfold WorkItem.token
    rw [hid, hshard]
    decide +kernel
  have hkept : (reached lockingItemClaimed).watch (.held item.token) relayedTwice ≠ .lifted := by
    rw [hwatch]
    exact fun h => nomatch h
  obtain ⟨-, hpolls⟩ := handed_over_without_gap lockingItemClaimed item ⟨"a", ⟨0, 3⟩⟩ hrest hpending
    hblocking relayedTwice hkept
  exact ⟨hrest, ⟨item, hpending, hblocking, hwatch⟩, hfree, fun now => (hpolls hfree now).1⟩

end Bench

end Courier
