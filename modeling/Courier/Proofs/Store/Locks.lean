/-
  Courier/Proofs/Store/Locks.lean
  ===============================
  **Locks and pauses are exclusive, and they stick.**

  What a call makes of the hold of a queue (`Store.Call.turns`) settles what becomes
  of its lock and its pause.  What is left is the row that they live on: while
  something is on a queue the row is kept, if need be headed by a placeholder once
  the last linked item has completed (`Store.complete_last`), and nothing is handed
  out of the queue.  Over a history both last until somebody lets go of them
  (`Store.locks_and_pauses_stick`).
-/
import Courier.Proofs.Store.Hold

namespace Courier

open Courier.Time

namespace Store

variable {sharding : Sharding} {s s' : Store} {now : Instant}

/-! ### The row of a queue that something is on -/

theorem row?_isSome_setLane {shard : Shard} {lane lane' : Lane} (hl : s.lane? shard = some lane)
    (hshard : lane'.shard = lane.shard)
    (hsame : ∀ name, (lane'.row? name).isSome = (lane.row? name).isSome) (queue : QueueRef) :
    ((s.setLane lane').row? queue).isSome = (s.row? queue).isSome := by
  obtain ⟨hmem, rfl⟩ := mem_of_lane? hl
  unfold row?
  rw [lane?_setLane, hshard]
  by_cases hq : queue.shard = lane.shard
  · rw [if_pos hq, hq, hl]
    exact hsame queue.name
  · rw [if_neg hq]

theorem row?_isSome_resume (s : Store) (target queue : QueueRef) :
    ((s.resume target).2.row? queue).isSome = (s.row? queue).isSome := by
  unfold resume withLane
  cases hl : s.lane? target.shard with
  | none => rfl
  | some lane =>
    refine row?_isSome_setLane hl ?_ ?_ queue
    · rfl
    · exact fun name => Lane.row?_isSome_updateRow lane target.name name fun _ => rfl

theorem row?_isSome_unlock (s : Store) (target queue : QueueRef) (lockId : String) :
    ((s.unlock target lockId).2.row? queue).isSome = (s.row? queue).isSome := by
  unfold unlock withLane
  cases hl : s.lane? target.shard with
  | none => rfl
  | some lane =>
    dsimp only
    cases hrow : lane.row? target.name with
    | none => rfl
    | some row =>
      dsimp only
      split
      · refine row?_isSome_setLane hl ?_ ?_ queue
        · rfl
        · exact fun name => Lane.row?_isSome_updateRow lane target.name name fun _ => rfl
      · cases lane.item? row.head with
        | none => rfl
        | some head =>
          dsimp only
          split
          · refine row?_isSome_setLane hl ?_ ?_ queue
            · rfl
            · exact fun name => rfl
          · rfl

/-- A call keeps the row of a queue that something is on, unless it removes everything. -/
theorem Call.keeps_row (hs : s.Sound) (c : Call s.sharding) (hclear : c.request ≠ .operate .clear)
    {queue : QueueRef} (hheld : s.hold queue ≠ .free) :
    ((c.run s).2.row? queue).isSome = true := by
  have hrow := row?_isSome_of_hold hheld
  obtain ⟨after, hafter⟩ : ∃ after, after = (c.run s).2.hold queue := ⟨_, rfl⟩
  have hturns := c.turns hs hclear queue
  rw [← hafter] at hturns
  cases hturns with
  | keep =>
    apply row?_isSome_of_hold
    rwa [← hafter]
  | pause asked =>
    apply row?_isSome_of_hold
    rw [← hafter]
    simp [Hold.after, Hold.free]
  | lock puts fits =>
    apply row?_isSome_of_hold
    rw [← hafter]
    simp [Hold.after, Hold.free]
  | resume asked =>
    rw [Call.run_operate asked]
    show (((s.resume queue).map _).2.row? queue).isSome = true
    rw [Answer.map_snd, row?_isSome_resume]
    exact hrow
  | @unlock lock asked own =>
    rw [Call.run_operate asked]
    show (((s.unlock queue lock).map _).2.row? queue).isSome = true
    rw [Answer.map_snd, row?_isSome_unlock]
    exact hrow

/-- A queue that something is on, or that its head puts a lock on, lives on in a placeholder once
    its last linked item completes. -/
theorem Completes.placeholder {shard : Shard} {lane locked lane' : Lane} {item : WorkItem}
    {row : Row} {used : Int} {messages : List BlockingMessage} (hs : s.Sound)
    (h : s.Completes now shard lane item row locked lane' used messages)
    (hlast : lane.successor? item.queueName item.id = none)
    (hheld : row.hold ≠ .free ∨ item.lockWhenComplete ≠ none) :
    ∃ kept, lane'.row? item.queueName = some kept ∧ kept.head = s.nextId ∧
      lane'.item? s.nextId =
        some (.placeholder s.nextId ⟨item.queueName, shard⟩ item.blocking now) ∧
      kept.isPaused = row.isPaused ∧ kept.lock = item.lockWhenComplete.or row.lock := by
  obtain ⟨hitem, hrow, hid⟩ := Lane.head_eq_ok_iff.1 h.head
  obtain ⟨hmem, hshard⟩ := mem_of_lane? h.here
  have hlane := hs.lane h.here
  obtain ⟨put, hput, hpaused, hlock⟩ := h.locks.row? hrow
  have hitems := h.locks.items
  -- no item is next, and the row may not go while something is on it: that leaves the placeholder
  have hstep := h.step
  generalize hevent : Event.completed item = event at hstep
  cases hstep with
  | advance head free unlocked successor =>
    cases hevent
    unfold Lane.successor? at successor hlast
    rw [hitems, hlast] at successor
    cases successor
  | finish head free unlocked last given =>
    cases hevent
    obtain ⟨-, hfound, -⟩ := Lane.head_eq_ok_iff.1 head
    obtain rfl := Option.some.inj (hput.symm.trans hfound)
    rw [unlocked, Option.none_or] at hlock
    rcases hheld with hheld | hheld
    · refine absurd ?_ hheld
      unfold Row.hold
      rw [← hpaused, ← hlock, given.1, given.2]
      rfl
    · exact absurd unlocked hheld
  | relay head free unlocked last kept =>
    cases hevent
    obtain ⟨hi, -⟩ := Lane.mem_of_item? hitem
    have hqueue : item.queueRef = ⟨item.queueName, shard⟩ := by
      unfold WorkItem.queueRef
      rw [hlane.here item hi, hshard]
    have hfresh : s.nextId ≠ item.id := (Int.ne_of_lt (hlane.below item hi)).symm
    have hnone : locked.item? s.nextId = none := by
      unfold Lane.item?
      rw [hitems]
      refine Keyed.find?_eq_none.2 fun other ho => ?_
      exact Int.ne_of_lt (hlane.below other ho)
    refine ⟨put.rehead s.nextId now, ?_, rfl, ?_, hpaused, hlock⟩
    · show ((locked.addItem _).updateRow item.queueName (·.rehead s.nextId now)).row? _ = _
      rw [Lane.row?_updateRow _ _ _ (·.rehead s.nextId now) fun _ => rfl, if_pos rfl]
      show (locked.row? item.queueName).map _ = _
      rw [hput, Option.map_some]
    · show ((locked.addItem (.placeholder s.nextId item.queueRef item.blocking now)).removeItem
        item.id).item? s.nextId = _
      rw [Lane.item?_removeItem, if_neg hfresh, Lane.item?_addItem, hnone, hqueue]
      exact if_pos rfl
  | _ => cases hevent

/-! ### Histories -/

/-- The items of a queue that a call hands out. -/
def Call.claimed (queue : QueueRef) (c : Call sharding) (s : Store) : List WorkItem :=
  match c.request with
  | .operate (.next _) =>
    match (c.run s).1 with
    | .ok (.claimed (some item)) => if item.queueRef = queue then [item] else []
    | _ => []
  | _ => []

theorem hold_of_next (hs : s.Sound) {shard : Shard} {item : WorkItem}
    (h : (s.next now shard).1 = .ok (some item)) : s.hold item.queueRef = .free := by
  obtain ⟨lane, row, hl, hrow, -, -, hpaused, hlock, -⟩ := claimable_of_next hs h
  have hhere : s.lane? item.queueRef.shard = some lane := hl
  rw [hold_of_lane? hhere, ← Lane.hold_poll]
  refine (Lane.hold_of_row? hrow).trans ?_
  unfold Row.hold
  rw [hpaused, hlock]
  rfl

theorem Call.claimed_eq_nil (hs : s.Sound) (c : Call s.sharding) {queue : QueueRef}
    (hheld : s.hold queue ≠ .free) : c.claimed queue s = [] := by
  unfold Call.claimed
  split
  · rename_i shard hc
    have hanswer : c.run s = (s.next c.clock.storeNow shard).map .claimed :=
      Call.run_operate hc s
    obtain ⟨claimed, hclaimed⟩ : ∃ claimed, claimed = s.next c.clock.storeNow shard := ⟨_, rfl⟩
    rw [hanswer, ← hclaimed]
    obtain ⟨result, s'⟩ := claimed
    cases result with
    | error e => rfl
    | ok found =>
      cases found with
      | none => rfl
      | some item =>
        show (if item.queueRef = queue then [item] else []) = []
        rw [if_neg]
        rintro rfl
        exact hheld (hold_of_next hs (congrArg Prod.fst hclaimed.symm))
  · rfl

/-- What one call can do about the lock and the pause of a queue. -/
structure Call.Sticks (queue : QueueRef) (c : Call sharding) (s : Store) : Prop where
  locks : ∀ lock, (s.hold queue).lock = none → ((c.run s).2.hold queue).lock = some lock →
    c.PutsLock queue lock s
  unlocks : ∀ lock, (s.hold queue).lock = some lock →
    ((c.run s).2.hold queue).lock = some lock ∨
      (((c.run s).2.hold queue).lock = none ∧ c.request = .operate (.unlock queue lock))
  pauses : (s.hold queue).isPaused = false → ((c.run s).2.hold queue).isPaused = true →
    c.request = .operate (.pause queue)
  resumes : (s.hold queue).isPaused = true → ((c.run s).2.hold queue).isPaused = false →
    c.request = .operate (.resume queue)
  /-- A queue that is paused or locked keeps its row, and nothing is handed out of it. -/
  keeps : s.hold queue ≠ .free →
    ((c.run s).2.row? queue).isSome = true ∧ c.claimed queue s = []

theorem Call.sticks (hs : s.Sound) (c : Call s.sharding) (hclear : c.request ≠ .operate .clear)
    (queue : QueueRef) : c.Sticks queue s := by
  have hturns := c.turns hs hclear queue
  constructor
  case keeps => exact fun hheld => ⟨c.keeps_row hs hclear hheld, c.claimed_eq_nil hs hheld⟩
  all_goals
    generalize (c.run s).2.hold queue = after at hturns
  case locks =>
    intro lock hnone hsome
    cases hturns with
    | lock puts fits =>
      cases hsome
      exact puts
    | _ => simp_all [Hold.after]
  case unlocks =>
    intro lock hheld
    cases hturns with
    | lock puts fits =>
      rw [hheld] at fits
      rcases fits with hnone | hsame
      · cases hnone
      · exact Or.inl hsame.symm
    | unlock asked own =>
      rw [hheld] at own
      cases own
      exact Or.inr ⟨rfl, asked⟩
    | _ => exact Or.inl hheld
  case pauses =>
    intro hoff hon
    cases hturns with
    | pause asked => exact asked
    | _ => simp_all [Hold.after]
  case resumes =>
    intro hon hoff
    cases hturns with
    | resume asked => exact asked
    | _ => simp_all [Hold.after]

/-- What every call of a history keeps about a queue that something is on stays so over the
    history, and all the while nothing is handed out. -/
theorem hold_after {P : Hold → Prop} (hfree : ¬ P .free) {queue : QueueRef}
    {calls : List (Call sharding)} (hs : s.Sound) (hsharding : s.sharding = sharding)
    (hclear : ∀ c ∈ calls, c.request ≠ .operate .clear)
    (hstep : ∀ c ∈ calls, ∀ s, c.Sticks queue s → P (s.hold queue) → P ((c.run s).2.hold queue))
    (hheld : P (s.hold queue)) :
    P ((s.after calls).hold queue) ∧ told (Call.claimed queue) s calls = [] := by
  induction calls generalizing s with
  | nil => exact ⟨hheld, rfl⟩
  | cons c rest ih =>
    subst hsharding
    have hsticks := c.sticks hs (hclear c List.mem_cons_self) queue
    have hnot : s.hold queue ≠ .free := fun h => hfree (h ▸ hheld)
    obtain ⟨hs', hsharding'⟩ := c.run_sound hs rfl
    obtain ⟨hafter, htold⟩ := ih hs' hsharding'
      (fun other ho => hclear other (List.mem_cons_of_mem _ ho))
      (fun other ho => hstep other (List.mem_cons_of_mem _ ho))
      (hstep c List.mem_cons_self s hsticks hheld)
    refine ⟨hafter, ?_⟩
    unfold told
    rw [(hsticks.keeps hnot).2, htold]
    rfl

theorem lock_after {calls : List (Call sharding)} (hs : s.Sound) (hsharding : s.sharding = sharding)
    (hclear : ∀ c ∈ calls, c.request ≠ .operate .clear) {queue : QueueRef} {lock : String}
    (hheld : (s.hold queue).lock = some lock)
    (hkept : ∀ c ∈ calls, c.request ≠ .operate (.unlock queue lock)) :
    ((s.after calls).hold queue).lock = some lock ∧ told (Call.claimed queue) s calls = [] := by
  refine hold_after (P := fun held => held.lock = some lock) (by simp [Hold.free]) hs hsharding
    hclear ?_ hheld
  intro c hc s hsticks hlock
  rcases hsticks.unlocks lock hlock with hsame | ⟨-, hasked⟩
  · exact hsame
  · exact absurd hasked (hkept c hc)

theorem pause_after {calls : List (Call sharding)} (hs : s.Sound)
    (hsharding : s.sharding = sharding) (hclear : ∀ c ∈ calls, c.request ≠ .operate .clear)
    {queue : QueueRef} (hheld : (s.hold queue).isPaused = true)
    (hkept : ∀ c ∈ calls, c.request ≠ .operate (.resume queue)) :
    ((s.after calls).hold queue).isPaused = true ∧ told (Call.claimed queue) s calls = [] := by
  refine hold_after (P := fun held => held.isPaused = true) (by simp [Hold.free]) hs hsharding
    hclear ?_ hheld
  intro c hc s hsticks hpaused
  cases hafter : ((c.run s).2.hold queue).isPaused with
  | true => rfl
  | false => exact absurd (hsticks.resumes hpaused hafter) (hkept c hc)

theorem lane?_replace_self {shard : Shard} {lane lane' : Lane} (hl : s.lane? shard = some lane)
    (hshard : lane'.shard = lane.shard) (used : Int) (messages : List BlockingMessage) :
    (s.replace lane' used messages).lane? shard = some (lane'.receive messages) := by
  rw [lane?_replace, if_pos ((mem_of_lane? hl).2.symm.trans hshard.symm), hl]
  rfl

theorem complete_last (hs : s.Sound) {id : WorkItemId} {shard : Shard} {item : WorkItem}
    {queue : QueueRef} (hrun : s.complete now id shard = (.ok (), s'))
    (hhead : s.IsHead queue shard id) (hitem : s.item? shard id = some item)
    (hheld : s.hold queue ≠ .free ∨ item.lockWhenComplete ≠ none)
    (hlast : ∀ other, s.item? shard other.id = some other → other.queueName = queue.name →
      other.isIngested = true → other.id = id) :
    ∃ row, s'.row? queue = some row ∧ row.head = s.nextId ∧
      s'.item? shard row.head = some (.placeholder row.head queue item.blocking now) ∧
      row.isPaused = (s.hold queue).isPaused ∧
      row.lock = item.lockWhenComplete.or (s.hold queue).lock := by
  obtain ⟨hid, rfl⟩ := hs.head_name hhead hitem
  rcases complete_spec hs now id shard with
    ⟨e, herror⟩ | ⟨lane, other, row, locked, lane', used, messages, rfl, h⟩
  · rw [hrun] at herror
    cases herror
  · obtain ⟨hfound, hrow, -⟩ := Lane.head_eq_ok_iff.1 h.head
    rw [item?_of_lane? h.here, hfound] at hitem
    obtain rfl := Option.some.inj hitem
    have hhere : s.lane? (⟨other.queueName, shard⟩ : QueueRef).shard = some lane := h.here
    have hhold : s.hold ⟨other.queueName, shard⟩ = row.hold := by
      rw [hold_of_lane? hhere, Lane.hold_of_row? hrow]
    have hnone : lane.successor? other.queueName other.id = none := by
      refine List.find?_eq_none.2 fun next hn hsucc => ?_
      obtain ⟨hname, hlinked, hne⟩ := of_decide_eq_true hsucc
      refine hne (hlast next ?_ hname hlinked)
      rw [item?_of_lane? h.here]
      exact (hs.lane h.here).item?_of_mem hn
    rw [hhold] at hheld ⊢
    obtain ⟨kept, hkept, hheadId, hplaceholder, hpaused, hlock⟩ :=
      h.placeholder hs hnone hheld
    rw [h.run] at hrun
    cases hrun
    have hl := lane?_replace_self h.here h.shard used messages
    refine ⟨kept, ?_, hheadId, ?_, hpaused, hlock⟩
    · rw [row?_of_lane? hl]
      exact hkept
    · rw [item?_of_lane? hl, hheadId]
      exact hplaceholder

/-- In every reachable store: a lock comes on a queue only where there is none, by asking for it
    or by the head that was to leave it behind, and goes only when the same lock is released; a
    pause comes and goes only by pausing and resuming; and a queue that is paused or locked keeps
    its row and hands nothing out.  If the last linked item of such a queue completes, or of a
    queue that it puts a lock on, the row goes on with a new placeholder.  A lock on a locked queue
    is refused, and to release another one leaves it.  So a lock and a pause last over any history
    that does not let go of them. -/
theorem locks_and_pauses_stick (calls : List (Call sharding)) (queue : QueueRef) :
    (∀ c : Call sharding, c.request ≠ .operate .clear → c.Sticks queue (reached calls)) ∧
    (∀ clock id shard item s', Operation.run clock (reached calls) (.complete id shard) =
        (.ok .done, s') →
      (reached calls).IsHead queue shard id → (reached calls).item? shard id = some item →
      ((reached calls).hold queue ≠ .free ∨ item.lockWhenComplete ≠ none) →
      (∀ other, (reached calls).item? shard other.id = some other →
        other.queueName = queue.name → other.isIngested = true → other.id = id) →
      ∃ row, s'.row? queue = some row ∧ row.head = (reached calls).nextId ∧
        s'.item? shard row.head =
          some (.placeholder row.head queue item.blocking clock.storeNow) ∧
        row.isPaused = ((reached calls).hold queue).isPaused ∧
        row.lock = item.lockWhenComplete.or ((reached calls).hold queue).lock) ∧
    (∀ clock held lock, ((reached calls).hold queue).lock = some held →
      Operation.run clock (reached calls) (.lock queue lock) =
        (.error (.alreadyLocked queue.name held), reached calls)) ∧
    (∀ clock held lock, ((reached calls).hold queue).lock = some held → lock ≠ held →
      ((Operation.run clock (reached calls) (.unlock queue lock)).2.hold queue).lock =
        some held) ∧
    (∀ later : List (Call sharding), (∀ c ∈ later, c.request ≠ .operate .clear) →
      (∀ lock, ((reached calls).hold queue).lock = some lock →
        (∀ c ∈ later, c.request ≠ .operate (.unlock queue lock)) →
        (((reached calls).after later).hold queue).lock = some lock ∧
          told (Call.claimed queue) (reached calls) later = []) ∧
      (((reached calls).hold queue).isPaused = true →
        (∀ c ∈ later, c.request ≠ .operate (.resume queue)) →
        (((reached calls).after later).hold queue).isPaused = true ∧
          told (Call.claimed queue) (reached calls) later = [])) := by
  obtain ⟨hs, hsharding⟩ := reached_sound calls
  generalize reached calls = s at hs hsharding
  subst hsharding
  refine ⟨?_, ?_, ?_, ?_, ?_⟩
  · exact fun c hclear => c.sticks hs hclear queue
  · intro clock id shard item s' hrun hhead hitem hheld hlast
    have hanswer : (s.complete clock.storeNow id shard).map (fun _ => Operation.Value.done) =
      (.ok .done, s') := hrun
    cases hcomplete : s.complete clock.storeNow id shard with
    | mk result after =>
      rw [hcomplete] at hanswer
      cases result with
      | error e => cases hanswer
      | ok value =>
        cases hanswer
        exact complete_last hs hcomplete hhead hitem hheld hlast
  · intro clock held lock hheld
    have hfails := operation_fails hs clock (.lock queue lock)
    have herror : (Operation.run clock s (.lock queue lock)).1 =
        .error (.alreadyLocked queue.name held) :=
      (hfails.iff _).2 (Or.inr ⟨held, (lockOf_eq_hold s queue).trans hheld, rfl⟩)
    exact Prod.ext herror (hfails.same _ herror)
  · intro clock held lock hheld hne
    have hsticks := Call.sticks hs ⟨clock, .operate (.unlock queue lock)⟩ (by simp) queue
    rcases hsticks.unlocks held hheld with hsame | ⟨-, hasked⟩
    · exact hsame
    · cases hasked
      exact absurd rfl hne
  · intro later hclear
    constructor
    · exact fun lock hheld => lock_after hs rfl hclear hheld
    · exact fun hheld => pause_after hs rfl hclear hheld

end Store

end Courier
