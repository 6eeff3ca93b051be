/-
  Courier/Proofs/Store/Refusal.lean
  =================================
  **An operation fails for a stated reason, and then changes nothing.**

  No operation of the store rolls anything back.  A completion puts a lock on its
  queue, files a placeholder and posts messages one after another, a queue is
  reserved before it is locked, and a transaction files its items one by one; that
  a failure leaves the store as it was means that nothing fails once something has
  been written.  `Store.Refuses` lists the reasons for which an operation fails, in
  terms of the store that it finds, and `Store.fails_exactly_if_refused` says that
  in every reachable store there are no others.
-/
import Courier.Proofs.Store.Trace

namespace Courier

open Courier.Time

/-! ### When a check fails -/

theorem NewItem.prepare_eq_error_iff {sharding : Sharding} {freshName : String}
    {item : NewItem} {e : Error} :
    item.prepare sharding freshName = .error e ↔
      (item.url = "" ∧ e = .emptyUrl) ∨
      (item.url ≠ "" ∧ item.blocks = some (item.queueName freshName) ∧
        e = .selfBlock (item.queueName freshName)) := by
  unfold NewItem.prepare
  by_cases hurl : item.url = ""
  · simp [hurl, eq_comm]
  · cases item.blocks with
    | none => simp [hurl]
    | some target =>
      by_cases htarget : target = item.queueName freshName
      · simp [hurl, htarget, eq_comm]
      · simp [hurl, htarget]

theorem Lane.head_eq_error_iff {l : Lane} {id : WorkItemId} {e : Error} :
    l.head id = .error e ↔ (l.item? id = none ∧ e = .notFound (.item id)) ∨
      ∃ item, l.item? id = some item ∧ (l.row? item.queueName).map (·.head) ≠ some id ∧
        e = .notFound (.head id item.queueName) := by
  unfold Lane.head
  cases l.item? id with
  | none => simp [eq_comm]
  | some item =>
    cases hrow : l.row? item.queueName with
    | none => simp [hrow, eq_comm]
    | some row =>
      by_cases hhead : row.head = id
      · simp [hrow, hhead]
      · simp [hrow, hhead, @eq_comm _ e]

def Operation.queue? : Operation → Option QueueRef
  | .pause queue => some queue
  | .resume queue => some queue
  | .reset queue => some queue
  | .lock queue _ => some queue
  | .unlock queue _ => some queue
  | _ => none

namespace Store

variable {sharding : Sharding} {s : Store} {now : Instant} {α β : Type}

/-! ### Reasons -/

/-- The items that keep a queue blocked, as far as its shard has read its mailbox. -/
def blockedBy (s : Store) (queue : QueueRef) : List BlockToken :=
  ((s.lane? queue.shard).map (·.blockedBy queue.name)).getD []

def lockOf (s : Store) (queue : QueueRef) : Option String := (s.row? queue).bind (·.lock)

/-- Whether a cause is that a shard belongs to another deployment. -/
def Elsewhere (s : Store) (shard : Shard) (e : Error) : Prop :=
  shard ∉ s.sharding.shards ∧ e = .notFound (.shard shard)

/-- Whether a cause is that no item of a number heads its queue on a shard: the item is not
    pending there, or its queue has another head or none. -/
def NotHead (s : Store) (shard : Shard) (id : WorkItemId) (e : Error) : Prop :=
  (shard ∈ s.sharding.shards ∧ s.item? shard id = none ∧ e = .notFound (.item id)) ∨
  ∃ item, s.item? shard id = some item ∧ ¬ s.IsHead ⟨item.queueName, shard⟩ shard id ∧
    e = .notFound (.head id item.queueName)

/-- Whether a cause is that the head of a queue may not be completed: the queue is blocked, or it
    is under another lock than the one that the head would put on it. -/
def HeldBack (s : Store) (shard : Shard) (id : WorkItemId) (e : Error) : Prop :=
  ∃ item, s.item? shard id = some item ∧ s.IsHead ⟨item.queueName, shard⟩ shard id ∧
    ((s.blockedBy ⟨item.queueName, shard⟩ ≠ [] ∧
        e = .completedWhileBlocked item.queueName id) ∨
      (s.blockedBy ⟨item.queueName, shard⟩ = [] ∧ ∃ lock held,
        item.lockWhenComplete = some lock ∧ s.lockOf ⟨item.queueName, shard⟩ = some held ∧
        held ≠ lock ∧ e = .lockConflict item.queueName held lock))

/-- Whether a store refuses an operation, and for which cause. -/
def Refuses (s : Store) (e : Error) : Operation → Prop
  | .enqueue freshName item =>
    (item.url = "" ∧ e = .emptyUrl) ∨
    (item.url ≠ "" ∧ item.blocks = some (item.queueName freshName) ∧
      e = .selfBlock (item.queueName freshName))
  | .next shard => s.Elsewhere shard e
  | .complete id shard => s.Elsewhere shard e ∨ s.NotHead shard id e ∨ s.HeldBack shard id e
  | .fail id shard => s.Elsewhere shard e ∨ s.NotHead shard id e
  | .delay id shard => s.Elsewhere shard e ∨ s.NotHead shard id e
  | .purge shard => s.Elsewhere shard e
  | .pause queue => s.Elsewhere queue.shard e
  | .resume queue => s.Elsewhere queue.shard e
  | .reset queue => s.Elsewhere queue.shard e
  | .lock queue _ =>
    s.Elsewhere queue.shard e ∨
    ∃ held, s.lockOf queue = some held ∧ e = .alreadyLocked queue.name held
  | .unlock queue _ => s.Elsewhere queue.shard e
  | .clear => False

/-- Whether an answer of a store is a failure for exactly the given causes, and then leaves the
    store as it was. -/
structure FailsFor (s : Store) (answer : Answer Store α) (cause : Error → Prop) : Prop where
  iff : ∀ e, answer.1 = .error e ↔ cause e
  same : ∀ e, answer.1 = .error e → answer.2 = s

namespace FailsFor

variable {answer : Answer Store α} {cause : Error → Prop}

theorem ok {a : α} {s' : Store} (h : ∀ e, ¬ cause e) : FailsFor s (.ok a, s') cause := by
  constructor
  · intro e
    simp [h e]
  · intro e he
    cases he

theorem error {e : Error} (h : ∀ other, cause other ↔ other = e) :
    FailsFor s ((.error e, s) : Answer Store α) cause := by
  constructor
  · intro other
    rw [h other, Except.error.injEq, eq_comm]
  · intro other _
    rfl

theorem map (h : FailsFor s answer cause) (f : α → β) : FailsFor s (answer.map f) cause := by
  obtain ⟨result, s'⟩ := answer
  cases result with
  | ok a =>
    apply ok
    intro e he
    cases (h.iff e).2 he
  | error e =>
    have hsame : s' = s := h.same e rfl
    subst hsame
    apply error
    intro other
    rw [← h.iff other, Except.error.injEq, eq_comm]

end FailsFor

/-! ### Shards -/

theorem Sound.lane?_eq_none_iff (hs : s.Sound) (shard : Shard) :
    s.lane? shard = none ↔ shard ∉ s.sharding.shards := by
  constructor
  · intro hl hknown
    obtain ⟨lane, hlane⟩ := hs.exists_lane hknown
    rw [hl] at hlane
    cases hlane
  · intro hunknown
    cases hl : s.lane? shard with
    | none => rfl
    | some lane =>
      obtain ⟨hmem, rfl⟩ := mem_of_lane? hl
      exact absurd (hs.shards ▸ List.mem_map_of_mem hmem) hunknown

theorem Sound.elsewhere_iff (hs : s.Sound) {shard : Shard} (hl : s.lane? shard = none)
    (e : Error) : s.Elsewhere shard e ↔ e = .notFound (.shard shard) :=
  and_iff_right ((hs.lane?_eq_none_iff shard).1 hl)

theorem Sound.not_elsewhere (hs : s.Sound) {shard : Shard} {lane : Lane}
    (hl : s.lane? shard = some lane) (e : Error) : ¬ s.Elsewhere shard e := by
  rintro ⟨hunknown, -⟩
  rw [(hs.lane?_eq_none_iff shard).2 hunknown] at hl
  cases hl

/-- An operation on the lane of a shard fails on a shard of another deployment, and otherwise as
    it does on the lane. -/
theorem FailsFor.withLane (hs : s.Sound) {shard : Shard} {f : Lane → Answer Store α}
    {cause : Error → Prop} (hnone : s.lane? shard = none → ∀ e, ¬ cause e)
    (h : ∀ lane, s.lane? shard = some lane → FailsFor s (f lane) cause) :
    FailsFor s (s.withLane shard f) fun e => s.Elsewhere shard e ∨ cause e := by
  unfold Store.withLane
  cases hl : s.lane? shard with
  | none =>
    apply FailsFor.error
    intro e
    rw [hs.elsewhere_iff hl, or_iff_left (hnone hl e)]
  | some lane =>
    simp only [hs.not_elsewhere hl, false_or]
    exact h lane hl

/-- An operation that succeeds on every lane fails on a shard of another deployment only. -/
theorem FailsFor.withLane_ok (hs : s.Sound) {shard : Shard} {f : Lane → Answer Store α}
    (h : ∀ lane, ∃ a s', f lane = (.ok a, s')) :
    FailsFor s (s.withLane shard f) (s.Elsewhere shard) := by
  unfold Store.withLane
  cases hl : s.lane? shard with
  | none => exact .error (hs.elsewhere_iff hl)
  | some lane =>
    obtain ⟨a, s', hrun⟩ := h lane
    dsimp only
    rw [hrun]
    exact .ok (hs.not_elsewhere hl)

section Lane

variable {shard : Shard} {lane : Lane} (hl : s.lane? shard = some lane)

include hl

theorem item?_of_lane? (id : WorkItemId) : s.item? shard id = lane.item? id := by
  unfold item?
  rw [hl]
  rfl

theorem row?_of_lane? (name : String) : s.row? ⟨name, shard⟩ = lane.row? name := by
  unfold row?
  rw [hl]
  rfl

theorem lockOf_of_lane? (name : String) :
    s.lockOf ⟨name, shard⟩ = (lane.row? name).bind (·.lock) := by
  unfold lockOf
  rw [row?_of_lane? hl]

theorem blockedBy_of_lane? (name : String) :
    s.blockedBy ⟨name, shard⟩ = lane.blockedBy name := by
  unfold blockedBy
  rw [hl]
  rfl

theorem isHead_of_lane? (name : String) (id : WorkItemId) :
    s.IsHead ⟨name, shard⟩ shard id ↔ (lane.row? name).map (·.head) = some id := by
  unfold IsHead
  rw [row?_of_lane? hl]
  exact and_iff_right rfl

end Lane

/-- The head of a queue is an item of that queue. -/
theorem Sound.head_name (hs : s.Sound) {queue : QueueRef} {shard : Shard} {id : WorkItemId}
    {item : WorkItem} (hhead : s.IsHead queue shard id) (hitem : s.item? shard id = some item) :
    item.id = id ∧ queue = ⟨item.queueName, shard⟩ := by
  obtain ⟨rfl, hrow⟩ := hhead
  cases hl : s.lane? queue.shard with
  | none =>
    unfold item? at hitem
    rw [hl] at hitem
    cases hitem
  | some lane =>
    have hfound : s.row? queue = lane.row? queue.name := row?_of_lane? hl queue.name
    rw [hfound] at hrow
    obtain ⟨row, hr, rfl⟩ := Option.map_eq_some_iff.1 hrow
    obtain ⟨hmem, hname⟩ := Lane.mem_of_row? hr
    rw [item?_of_lane? hl] at hitem
    obtain ⟨hi, hid⟩ := Lane.mem_of_item? hitem
    obtain ⟨first, hf, hfid, hfname, -⟩ := (hs.lane hl).head row hmem
    have hsame : first = item := (hs.lane hl).item_eq hf hi (hfid.trans hid.symm)
    refine ⟨hid, ?_⟩
    rw [← hsame, hfname, hname]

/-! ### Filing and claiming -/

theorem enqueue_fails (hs : s.Sound) (now : Instant) (freshName : String) (item : NewItem) :
    FailsFor s (s.enqueue now freshName item) fun e => s.Refuses e (.enqueue freshName item) := by
  unfold enqueue Refuses
  simp only [← @NewItem.prepare_eq_error_iff s.sharding]
  cases hprepare : item.prepare s.sharding freshName with
  | error e =>
    apply FailsFor.error
    intro other
    rw [Except.error.injEq, eq_comm]
  | ok p =>
    -- the checks are done; the shards of the queue and of what it blocks are known
    obtain ⟨result, s', hrun, -⟩ := insert_moves hs ⟨freshName, item, hprepare⟩ now
    dsimp only
    rw [hrun]
    apply FailsFor.ok
    intro e he
    cases he

theorem next_fails (hs : s.Sound) (now : Instant) (shard : Shard) :
    FailsFor s (s.next now shard) (s.Elsewhere shard) := by
  cases hl : s.lane? shard with
  | none =>
    unfold next withLane
    rw [hl]
    exact .error (hs.elsewhere_iff hl)
  | some lane =>
    rcases next_cases hs hl now with ⟨-, hrun⟩ | ⟨row, item, -, hrun⟩
    · rw [hrun]
      exact .ok (hs.not_elsewhere hl)
    · rw [hrun]
      exact .ok (hs.not_elsewhere hl)

/-! ### Settling -/

theorem Sound.mem_shards (hs : s.Sound) {shard : Shard} {lane : Lane}
    (hl : s.lane? shard = some lane) : shard ∈ s.sharding.shards := by
  obtain ⟨hmem, rfl⟩ := mem_of_lane? hl
  rw [← hs.shards]
  exact List.mem_map_of_mem hmem

theorem not_notHead (hs : s.Sound) {shard : Shard} (hl : s.lane? shard = none) (id : WorkItemId)
    (e : Error) : ¬ s.NotHead shard id e := by
  rintro (⟨hknown, -⟩ | ⟨item, hitem, -⟩)
  · exact (hs.lane?_eq_none_iff shard).1 hl hknown
  · unfold item? at hitem
    rw [hl] at hitem
    cases hitem

theorem not_heldBack {shard : Shard} (hl : s.lane? shard = none) (id : WorkItemId) (e : Error) :
    ¬ s.HeldBack shard id e := by
  rintro ⟨item, hitem, -⟩
  unfold item? at hitem
  rw [hl] at hitem
  cases hitem

section Head

variable {shard : Shard} {lane : Lane} (hl : s.lane? shard = some lane)

include hl

theorem notHead_iff (hs : s.Sound) (id : WorkItemId) (e : Error) :
    s.NotHead shard id e ↔ lane.head id = .error e := by
  unfold NotHead
  simp only [item?_of_lane? hl, isHead_of_lane? hl, Lane.head_eq_error_iff, hs.mem_shards hl,
    true_and, ne_eq]

theorem heldBack_iff {id : WorkItemId} {item : WorkItem} {row : Row}
    (hhead : lane.head id = .ok (item, row)) (e : Error) :
    s.HeldBack shard id e ↔
      (lane.blockedBy item.queueName ≠ [] ∧ e = .completedWhileBlocked item.queueName id) ∨
      (lane.blockedBy item.queueName = [] ∧ ∃ lock held, item.lockWhenComplete = some lock ∧
        row.lock = some held ∧ held ≠ lock ∧ e = .lockConflict item.queueName held lock) := by
  obtain ⟨hitem, hrow, hid⟩ := Lane.head_eq_ok_iff.1 hhead
  unfold HeldBack
  simp only [item?_of_lane? hl, isHead_of_lane? hl, blockedBy_of_lane? hl, lockOf_of_lane? hl]
  constructor
  · rintro ⟨other, hother, -, hcause⟩
    obtain rfl : item = other := Option.some.inj (hitem.symm.trans hother)
    rw [hrow] at hcause
    exact hcause
  · intro hcause
    refine ⟨item, hitem, ?_, ?_⟩
    · rw [hrow, Option.map_some, hid]
    · rw [hrow]
      exact hcause

theorem completion_eq_error_iff (hs : s.Sound) (now : Instant) (id : WorkItemId) (e : Error) :
    s.completion now id lane = .error e ↔ s.NotHead shard id e ∨ s.HeldBack shard id e := by
  rw [notHead_iff hl hs]
  unfold completion
  cases hhead : lane.head id with
  | error other =>
    have hnot : ¬ s.HeldBack shard id e := by
      rintro ⟨item, hitem, hishead, -⟩
      rw [item?_of_lane? hl] at hitem
      rw [isHead_of_lane? hl] at hishead
      obtain ⟨row, hrow, hid⟩ := Option.map_eq_some_iff.1 hishead
      rw [Lane.head_eq_ok_iff.2 ⟨hitem, hrow, hid⟩] at hhead
      cases hhead
    simp [hnot]
  | ok found =>
    obtain ⟨item, row⟩ := found
    rw [heldBack_iff hl hhead]
    dsimp only
    by_cases hfree : lane.blockedBy item.queueName = []
    · cases hlock : item.lockWhenComplete with
      | none => simp [hfree]
      | some lock =>
        cases hheld : row.lock with
        | none => simp [hfree]
        | some held =>
          by_cases hsame : held = lock
          · simp [hfree, hsame]
          · simp [hfree, hsame, @eq_comm _ e]
    · simp [hfree, @eq_comm _ e]

theorem complete_of_error {now : Instant} {id : WorkItemId} {e : Error}
    (h : s.completion now id lane = .error e) : s.complete now id shard = (.error e, s) := by
  unfold complete withLane
  rw [hl]
  dsimp only
  rw [h]

end Head

/-- What is completed is the head of a queue that nothing blocks, and the queue is under no other
    lock than the one that the head puts on it. -/
theorem completion_eq_ok {lane : Lane} {id : WorkItemId} {effects : List Effect}
    (h : s.completion now id lane = .ok effects) :
    ∃ item row, lane.head id = .ok (item, row) ∧ lane.blockedBy item.queueName = [] ∧
      ∀ lock, item.lockWhenComplete = some lock → row.lock = none ∨ row.lock = some lock := by
  unfold completion at h
  cases hhead : lane.head id with
  | error e =>
    rw [hhead] at h
    cases h
  | ok found =>
    obtain ⟨item, row⟩ := found
    rw [hhead] at h
    dsimp only at h
    by_cases hfree : lane.blockedBy item.queueName = []
    · refine ⟨item, row, rfl, hfree, ?_⟩
      intro lock hlock
      cases hheld : row.lock with
      | none => exact Or.inl rfl
      | some held =>
        by_cases hsame : held = lock
        · exact Or.inr (hsame ▸ rfl)
        · simp [hfree, hlock, hheld, hsame] at h
    · simp [hfree] at h

/-- Whether the completion of the head of a queue replaces its lane, after the lock that the head
    puts on the queue was put on. -/
structure Completes (s : Store) (now : Instant) (shard : Shard) (lane : Lane) (item : WorkItem)
    (row : Row) (locked lane' : Lane) (used : Int) (messages : List BlockingMessage) : Prop where
  here : s.lane? shard = some lane
  head : lane.head item.id = .ok (item, row)
  fits : ∀ lock, item.lockWhenComplete = some lock → row.lock = none ∨ row.lock = some lock
  locks : Locks lane now item locked
  step : locked.Step s.sharding now s.nextId (.completed item) lane' used messages
  run : s.complete now item.id shard = (.ok (), s.replace lane' used messages)

theorem Completes.shard {shard : Shard} {lane locked lane' : Lane} {item : WorkItem} {row : Row}
    {used : Int} {messages : List BlockingMessage}
    (h : s.Completes now shard lane item row locked lane' used messages) :
    lane'.shard = lane.shard := h.step.shard.trans h.locks.shard

/-- A completion that is begun is carried out. -/
theorem exists_completes (hs : s.Sound) {shard : Shard} {lane : Lane}
    (hl : s.lane? shard = some lane) {id : WorkItemId} {effects : List Effect}
    (h : s.completion now id lane = .ok effects) :
    ∃ item row locked lane' used messages, item.id = id ∧
      s.Completes now shard lane item row locked lane' used messages := by
  obtain ⟨item, row, hhead, hfree, hfits⟩ := completion_eq_ok h
  obtain ⟨rfl, -⟩ := isHead_of_head hs hl hhead
  obtain ⟨locked, lane', used, messages, hlocks, hstep, hrun, -⟩ :=
    complete_head hs hl hhead hfree hfits now
  exact ⟨item, row, locked, lane', used, messages, rfl, hl, hhead, hfits, hlocks, hstep, hrun⟩

theorem settleRow_fails (hs : s.Sound) (id : WorkItemId) (shard : Shard) (f : Row → Row) :
    FailsFor s (s.settleRow id shard f) fun e => s.Elsewhere shard e ∨ s.NotHead shard id e := by
  refine .withLane hs (fun hl => not_notHead hs hl id) ?_
  intro lane hl
  rw [funext fun e => propext (notHead_iff hl hs id e)]
  cases lane.head id with
  | error e =>
    apply FailsFor.error
    intro other
    rw [Except.error.injEq, eq_comm]
  | ok found =>
    apply FailsFor.ok
    intro e he
    cases he

theorem complete_fails (hs : s.Sound) (now : Instant) (id : WorkItemId) (shard : Shard) :
    FailsFor s (s.complete now id shard) fun e =>
      s.Elsewhere shard e ∨ s.NotHead shard id e ∨ s.HeldBack shard id e := by
  cases hl : s.lane? shard with
  | none =>
    unfold complete withLane
    rw [hl]
    simp only [not_notHead hs hl, not_heldBack hl, or_false]
    exact .error (hs.elsewhere_iff hl)
  | some lane =>
    simp only [hs.not_elsewhere hl, false_or, ← completion_eq_error_iff hl hs now]
    cases hcompletion : s.completion now id lane with
    | error e =>
      rw [complete_of_error hl hcompletion]
      apply FailsFor.error
      intro other
      rw [Except.error.injEq, eq_comm]
    | ok effects =>
      -- whatever the effects need is there, so none of them fails
      obtain ⟨_, _, _, _, _, _, rfl, h⟩ := exists_completes hs hl hcompletion
      rw [h.run]
      apply FailsFor.ok
      intro e he
      cases he

theorem complete_spec (hs : s.Sound) (now : Instant) (id : WorkItemId) (shard : Shard) :
    (∃ e, s.complete now id shard = (.error e, s)) ∨
    ∃ lane item row locked lane' used messages, item.id = id ∧
      s.Completes now shard lane item row locked lane' used messages := by
  cases hl : s.lane? shard with
  | none =>
    unfold complete withLane
    rw [hl]
    exact Or.inl ⟨_, rfl⟩
  | some lane =>
    cases hcompletion : s.completion now id lane with
    | error e => exact Or.inl ⟨e, complete_of_error hl hcompletion⟩
    | ok effects =>
      exact Or.inr ⟨lane, exists_completes hs hl hcompletion⟩

/-! ### Operators -/

theorem pause_fails (hs : s.Sound) (now : Instant) (queue : QueueRef) :
    FailsFor s (s.pause now queue) (s.Elsewhere queue.shard) := by
  refine .withLane_ok hs ?_
  intro lane
  split <;> exact ⟨_, _, rfl⟩

theorem lock_fails (hs : s.Sound) (now : Instant) (queue : QueueRef) (lockId : String) :
    FailsFor s (s.lock now queue lockId) fun e => s.Elsewhere queue.shard e ∨
      ∃ held, s.lockOf queue = some held ∧ e = .alreadyLocked queue.name held := by
  refine .withLane hs ?_ ?_
  · rintro hl e ⟨held, htaken, -⟩
    unfold lockOf row? at htaken
    rw [hl] at htaken
    cases htaken
  · intro lane hl
    rw [lockOf_of_lane? hl]
    cases hrow : lane.row? queue.name with
    | none =>
      apply FailsFor.ok
      rintro e ⟨held, htaken, -⟩
      cases htaken
    | some row =>
      dsimp only [Option.bind_some]
      cases hlock : row.lock with
      | none =>
        apply FailsFor.ok
        rintro e ⟨held, htaken, -⟩
        cases htaken
      | some held =>
        apply FailsFor.error
        intro e
        simp

theorem unlock_fails (hs : s.Sound) (queue : QueueRef) (lockId : String) :
    FailsFor s (s.unlock queue lockId) (s.Elsewhere queue.shard) := by
  refine .withLane_ok hs ?_
  intro lane
  split
  · exact ⟨_, _, rfl⟩
  · split
    · exact ⟨_, _, rfl⟩
    · split
      · split <;> exact ⟨_, _, rfl⟩
      · exact ⟨_, _, rfl⟩

/-! ### All operations -/

/-- An operation fails for exactly the causes for which it is refused, and then leaves the store
    as it was. -/
theorem operation_fails (hs : s.Sound) (clock : Clock) (operation : Operation) :
    FailsFor s (operation.run clock s) fun e => s.Refuses e operation := by
  cases operation with
  | enqueue freshName item => exact (enqueue_fails hs clock.storeNow freshName item).map _
  | next shard => exact (next_fails hs clock.storeNow shard).map _
  | complete id shard => exact (complete_fails hs clock.storeNow id shard).map _
  | fail id shard => exact (settleRow_fails hs id shard _).map _
  | delay id shard => exact (settleRow_fails hs id shard _).map _
  | purge shard =>
    exact (FailsFor.withLane_ok hs fun lane => ⟨_, _, rfl⟩ : FailsFor s (s.purge ..) _).map _
  | pause queue => exact (pause_fails hs clock.storeNow queue).map _
  | resume queue =>
    exact (FailsFor.withLane_ok hs fun lane => ⟨_, _, rfl⟩ : FailsFor s (s.resume ..) _).map _
  | reset queue =>
    exact (FailsFor.withLane_ok hs fun lane => ⟨_, _, rfl⟩ : FailsFor s (s.reset ..) _).map _
  | lock queue lockId => exact (lock_fails hs clock.storeNow queue lockId).map _
  | unlock queue lockId => exact (unlock_fails hs queue lockId).map _
  | clear => exact .ok fun _ => not_false

/-- A transaction that is open is committed whatever the store has come to be. -/
theorem commit_fails (hs : s.Sound) {tx : JobTransaction} (isOpen : tx.IsOpen s.sharding)
    (now : Instant) : FailsFor s (s.commit now tx) fun _ => False := by
  obtain ⟨s', hinsert, -⟩ := insertAll_moves hs isOpen.isFor now
  unfold commit
  rw [hinsert]
  exact .ok fun _ => not_false

theorem Call.fails (hs : s.Sound) (c : Call s.sharding) :
    FailsFor s (c.run s) fun e =>
      ∃ operation, c.request = .operate operation ∧ s.Refuses e operation := by
  unfold Call.run
  cases c.request with
  | operate operation => simpa using operation_fails hs c.clock operation
  | commit tx isOpen => simpa using (commit_fails hs isOpen c.clock.storeNow).map _

theorem readLane_eq_error_iff (hs : s.Sound) (shard : Shard) (read : Lane → α) (e : Error) :
    s.readLane shard read = .error e ↔ s.Elsewhere shard e := by
  unfold readLane
  cases hl : s.lane? shard with
  | none => rw [hs.elsewhere_iff hl, Except.error.injEq, eq_comm]
  | some lane => simp [hs.not_elsewhere hl]

theorem not_elsewhere_ofName (s : Store) (name : String) (e : Error) :
    ¬ s.Elsewhere (QueueRef.ofName s.sharding name).shard e :=
  fun h => h.1 (s.sharding.shardFor_mem_shards name)

/-- What is addressed to a queue by its name is not refused for something that is missing. -/
theorem not_refuses_of_ofName {operation : Operation} {name : String}
    (h : operation.queue? = some (.ofName s.sharding name)) (missing : Missing) :
    ¬ s.Refuses (.notFound missing) operation := by
  have hknown := s.not_elsewhere_ofName name (.notFound missing)
  cases operation <;> cases h
  case lock lockId =>
    rintro (helsewhere | ⟨held, -, hcause⟩)
    · exact hknown helsewhere
    · cases hcause
  all_goals exact hknown

/-- In every reachable store an operation fails for exactly the causes for which it is refused, a
    transaction that is open does not fail at all, and a failure leaves the store as it was.  What
    is read fails on a shard of another deployment only.  So nothing that is filed, nor anything
    that is asked of a queue by its name, fails for something that is missing, and a poll always
    finds the head of the queue that it claims. -/
theorem fails_exactly_if_refused (calls : List (Call sharding)) :
    (∀ (c : Call sharding) (e : Error), (c.run (reached calls)).1 = .error e ↔
      ∃ operation, c.request = .operate operation ∧ (reached calls).Refuses e operation) ∧
    (∀ (c : Call sharding) (e : Error), (c.run (reached calls)).1 = .error e →
      (c.run (reached calls)).2 = reached calls) ∧
    (∀ queue e, (Backend.queueState queue (reached calls) = .error e ↔
        (reached calls).Elsewhere queue.shard e) ∧
      (Backend.pending queue (reached calls) = .error e ↔
        (reached calls).Elsewhere queue.shard e)) ∧
    (∀ shard e, Backend.completed shard (reached calls) = .error e ↔
      (reached calls).Elsewhere shard e) ∧
    (∀ e, Backend.health (reached calls) ≠ .error e ∧
      Backend.jobRecords (reached calls) ≠ .error e ∧ Backend.begin_ (reached calls) ≠ .error e) ∧
    (∀ clock freshName item missing,
      (Operation.run clock (reached calls) (.enqueue freshName item)).1 ≠
        .error (.notFound missing)) ∧
    (∀ clock operation name missing, operation.queue? = some (.ofName sharding name) →
      (Operation.run clock (reached calls) operation).1 ≠ .error (.notFound missing)) ∧
    (∀ name e, Backend.queueState (.ofName sharding name) (reached calls) ≠ .error e ∧
      Backend.pending (.ofName sharding name) (reached calls) ≠ .error e) ∧
    (∀ clock shard id name, (Operation.run clock (reached calls) (.next shard)).1 ≠
      .error (.notFound (.headOf id name))) := by
  obtain ⟨hs, hsharding⟩ := reached_sound calls
  generalize reached calls = s at hs hsharding
  subst hsharding
  refine ⟨?_, ?_, ?_, ?_, ?_, ?_, ?_, ?_, ?_⟩
  · exact fun c => (c.fails hs).iff
  · exact fun c => (c.fails hs).same
  · intro queue e
    constructor
    · exact readLane_eq_error_iff hs queue.shard _ e
    · exact readLane_eq_error_iff hs queue.shard _ e
  · exact fun shard => readLane_eq_error_iff hs shard _
  · intro e
    refine ⟨?_, ?_, ?_⟩ <;> exact nofun
  · intro clock freshName item missing h
    rcases ((operation_fails hs clock _).iff _).1 h with ⟨-, hcause⟩ | ⟨-, -, hcause⟩
    · cases hcause
    · cases hcause
  · intro clock operation name missing hname h
    exact not_refuses_of_ofName hname missing (((operation_fails hs clock _).iff _).1 h)
  · intro name e
    constructor
    · intro h
      exact s.not_elsewhere_ofName name e ((readLane_eq_error_iff hs _ _ e).1 h)
    · intro h
      exact s.not_elsewhere_ofName name e ((readLane_eq_error_iff hs _ _ e).1 h)
  · intro clock shard id name h
    have hcause := (((operation_fails hs clock (.next shard)).iff _).1 h).2
    cases hcause

end Store

end Courier
