/-
  Courier/Proofs/Store/Hold.lean
  ==============================
  **What is on a queue: its lock and its pause.**

  A lock and a pause live on the row of their queue, which a completion re-heads or
  removes, and a lock comes on two ways: asked for directly, or put on by a head
  that completes.  What is on a queue is its `Hold`; a queue without a row is free.
  `Store.Call.Turns` lists what one call can make of the hold of a queue, and
  `Store.Call.turns` says that no call does anything else, so the hold of a queue
  is a machine of its own, whatever becomes of the items and the row meanwhile.
-/
import Courier.Proofs.Store.Refusal
import Courier.Proofs.Store.Turnover

namespace Courier

open Courier.Time

/-- What keeps a queue from being claimed until an operator lets go of it. -/
structure Hold where
  isPaused : Bool
  lock : Option String
deriving DecidableEq, Repr

/-- The hold of a queue that is neither paused nor locked. -/
def Hold.free : Hold := ⟨false, none⟩

def Hold.after (held : Hold) : RowChange → Hold
  | .pause => { held with isPaused := true }
  | .resume => { held with isPaused := false }
  | .putLock lock => { held with lock := some lock }
  | .dropLock _ => { held with lock := none }
  | _ => held

def Row.hold (row : Row) : Hold := ⟨row.isPaused, row.lock⟩

@[simp] theorem Row.hold_apply (c : RowChange) (now : Instant) (row : Row) :
    (c.apply now row).hold = row.hold.after c := by cases c <;> rfl

/-- A move that is no change to the row of a queue leaves what is on the queue. -/
theorem RowStep.hold {now : Instant} {queue : QueueRef} {event : Event} {before after : Option Row}
    (h : RowStep now queue event before after) (hother : ∀ c, event ≠ .changed queue c)
    (hclear : event ≠ .cleared) :
    (after.map Row.hold).getD .free = (before.map Row.hold).getD .free := by
  cases h with
  | keep apart => rfl
  | start apart => rfl
  | lease late untripped => rfl
  | change c row? => exact absurd rfl (hother c)
  | rehead own retired other => rfl
  | @remove item row own retired free =>
    have hfree : row.hold = .free := by
      unfold Row.hold
      rw [free.1, free.2]
      rfl
    exact hfree.symm
  | clear row? => exact absurd rfl hclear

/-! ### What is on the queues of a lane -/

namespace Lane

variable {sharding : Sharding} {now : Instant} {fresh : WorkItemId} {l l' : Lane} {event : Event}
variable {used : Int} {messages : List BlockingMessage}

def hold (l : Lane) (name : String) : Hold := ((l.row? name).map Row.hold).getD .free

theorem hold_of_row? {name : String} {row : Row} (h : l.row? name = some row) :
    l.hold name = row.hold := by
  unfold hold
  rw [h]
  rfl

theorem hold_updateRow (l : Lane) (name other : String) {f : Row → Row}
    (hname : ∀ row, (f row).name = row.name) :
    (l.updateRow name f).hold other =
      if other = name then ((l.row? name).map fun row => (f row).hold).getD .free
      else l.hold other := by
  unfold hold
  rw [row?_updateRow _ _ _ _ hname]
  split
  · rename_i h
    rw [h, Option.map_map]
    rfl
  · rfl

theorem hold_updateRow_of_same (l : Lane) (name other : String) {f : Row → Row}
    (hname : ∀ row, (f row).name = row.name) (hsame : ∀ row, (f row).hold = row.hold) :
    (l.updateRow name f).hold other = l.hold other := by
  rw [hold_updateRow _ _ _ hname]
  split
  · rename_i h
    unfold hold
    rw [h]
    simp only [hsame]
  · rfl

theorem row?_isSome_updateRow (l : Lane) (name other : String) {f : Row → Row}
    (hname : ∀ row, (f row).name = row.name) :
    ((l.updateRow name f).row? other).isSome = (l.row? other).isSome := by
  rw [row?_updateRow _ _ _ _ hname]
  split <;> simp

theorem hold_poll (l : Lane) (name : String) : l.poll.hold name = l.hold name := by
  unfold hold
  rcases l.row?_poll_cases name with hsame | ⟨hnone, number, at_, hstart⟩
  · rw [hsame]
  · rw [hnone, hstart]
    rfl

/-- A step that is no change to the row of a queue leaves what is on the queue. -/
theorem Step.hold (h : l.Step sharding now fresh event l' used messages)
    (hs : l.Sound sharding fresh) {name : String}
    (hother : ∀ c, event ≠ .changed ⟨name, l.shard⟩ c) (hclear : event ≠ .cleared) :
    l'.hold name = l.hold name :=
  (h.row? hs name).hold hother hclear

end Lane

namespace Store

variable {sharding : Sharding} {s s' : Store} {now : Instant} {event : Event}

/-! ### What is on the queues of a store -/

/-- What is on a queue. -/
def hold (s : Store) (queue : QueueRef) : Hold :=
  ((s.lane? queue.shard).map (·.hold queue.name)).getD .free

theorem hold_of_lane? {queue : QueueRef} {lane : Lane} (hl : s.lane? queue.shard = some lane) :
    s.hold queue = lane.hold queue.name := by
  unfold hold
  rw [hl]
  rfl

theorem hold_eq_row? (s : Store) (queue : QueueRef) :
    s.hold queue = ((s.row? queue).map Row.hold).getD .free := by
  unfold hold row?
  cases s.lane? queue.shard <;> rfl

theorem lockOf_eq_hold (s : Store) (queue : QueueRef) : s.lockOf queue = (s.hold queue).lock := by
  rw [hold_eq_row?]
  unfold lockOf
  cases s.row? queue <;> rfl

theorem row?_isSome_of_hold {queue : QueueRef} (h : s.hold queue ≠ .free) :
    (s.row? queue).isSome = true := by
  rw [hold_eq_row?] at h
  cases hrow : s.row? queue with
  | none =>
    rw [hrow] at h
    exact absurd rfl h
  | some row => rfl

theorem hold_replace {lane lane' : Lane} (hl : lane ∈ s.lanes) (hshard : lane'.shard = lane.shard)
    (used : Int) (messages : List BlockingMessage) (queue : QueueRef) :
    (s.replace lane' used messages).hold queue =
      if queue.shard = lane.shard then lane'.hold queue.name else s.hold queue := by
  unfold hold
  rw [lane?_replace, hshard]
  by_cases hq : queue.shard = lane.shard
  · have hsome : (s.lane? queue.shard).isSome = true := Keyed.find?_isSome.2 ⟨lane, hl, hq.symm⟩
    obtain ⟨old, hold⟩ := Option.isSome_iff_exists.1 hsome
    rw [hold, if_pos hq, if_pos hq]
    rfl
  · rw [if_neg hq, if_neg hq, Option.map_map]
    rfl

theorem hold_setLane {lane l : Lane} (hl : lane ∈ s.lanes) (hshard : l.shard = lane.shard)
    (queue : QueueRef) :
    (s.setLane l).hold queue =
      if queue.shard = lane.shard then l.hold queue.name else s.hold queue := by
  rw [← replace_zero_nil]
  exact hold_replace hl hshard 0 [] queue

theorem hold_setLane_of_same {shard : Shard} {lane l : Lane} (hl : s.lane? shard = some lane)
    (hshard : l.shard = lane.shard) (hsame : ∀ name, l.hold name = lane.hold name)
    (queue : QueueRef) : (s.setLane l).hold queue = s.hold queue := by
  obtain ⟨hmem, rfl⟩ := mem_of_lane? hl
  rw [hold_setLane hmem hshard]
  split
  · rename_i hq
    rw [hsame]
    exact (hold_of_lane? (hq ▸ hl)).symm
  · rfl

theorem Move.hold (h : Move now s event s') (hs : s.Sound) {queue : QueueRef}
    (hother : ∀ c, event ≠ .changed queue c) (hclear : event ≠ .cleared) :
    s'.hold queue = s.hold queue := by
  rw [hold_eq_row?, hold_eq_row?]
  exact (h.row? hs queue).hold hother hclear

theorem Moves.hold {events : List Event} (h : Moves now s events s') (hs : s.Sound)
    {queue : QueueRef} (hother : ∀ event ∈ events, ∀ c, event ≠ .changed queue c)
    (hclear : .cleared ∉ events) : s'.hold queue = s.hold queue := by
  induction h with
  | nil s => rfl
  | @cons s mid s' event events move rest ih =>
    have hrest := ih (move.sound hs) (fun other ho => hother other (List.mem_cons_of_mem _ ho))
      fun he => hclear (List.mem_cons_of_mem _ he)
    rw [hrest]
    refine move.hold hs (hother event List.mem_cons_self) ?_
    rintro rfl
    exact hclear List.mem_cons_self

/-- A change to the row of a queue, if it has one, changes what is on that queue alone. -/
theorem hold_change {queue : QueueRef} {lane : Lane} (hl : s.lane? queue.shard = some lane)
    {c : RowChange} (hrow : (lane.row? queue.name).isSome = true ∨ Hold.free.after c = .free)
    (now : Instant) (other : QueueRef) :
    (s.setLane (lane.updateRow queue.name (c.apply now))).hold other =
      if other = queue then (s.hold queue).after c else s.hold other := by
  obtain ⟨hmem, hshard⟩ := mem_of_lane? hl
  rw [hold_setLane (l := lane.updateRow queue.name (c.apply now)) hmem rfl,
    Lane.hold_updateRow _ _ _ (RowChange.name_apply c now), hshard]
  by_cases hq : other.shard = queue.shard
  · rw [if_pos hq]
    by_cases hn : other.name = queue.name
    · have hsame : other = queue := by
        cases other
        cases queue
        simp_all
      rw [if_pos hn, if_pos hsame, hold_of_lane? hl]
      simp only [Row.hold_apply]
      unfold Lane.hold
      cases hfound : lane.row? queue.name with
      | some row => rfl
      | none =>
        rw [hfound] at hrow
        rcases hrow with hsome | hfree
        · cases hsome
        · exact hfree.symm
    · rw [if_neg hn, if_neg fun h => hn (congrArg QueueRef.name h)]
      exact (hold_of_lane? (hq ▸ hl)).symm
  · rw [if_neg hq, if_neg fun h => hq (congrArg QueueRef.shard h)]

/-! ### What a call makes of the hold of a queue -/

/-- Whether a call puts a lock on a queue: it asks for the lock and gets it, or it completes the
    head of the queue, which is to leave the lock behind. -/
def Call.PutsLock (queue : QueueRef) (lock : String) (c : Call sharding) (s : Store) : Prop :=
  (c.run s).1 = .ok .done ∧
  match c.request with
  | .operate (.lock target lockId) => target = queue ∧ lockId = lock
  | .operate (.complete id shard) => s.IsHead queue shard id ∧
    ∃ item, s.item? shard id = some item ∧ item.lockWhenComplete = some lock
  | _ => False

/-- What a call can make of the hold of a queue. -/
inductive Call.Turns (queue : QueueRef) (c : Call sharding) (s : Store) (held : Hold) :
    Hold → Prop where
  | keep : Turns queue c s held held
  | pause (asked : c.request = .operate (.pause queue)) :
      Turns queue c s held (held.after .pause)
  | resume (asked : c.request = .operate (.resume queue)) :
      Turns queue c s held (held.after .resume)
  | lock {lock : String} (puts : c.PutsLock queue lock s)
      (fits : held.lock = none ∨ held.lock = some lock) :
      Turns queue c s held (held.after (.putLock lock))
  | unlock {lock : String} (asked : c.request = .operate (.unlock queue lock))
      (own : held.lock = some lock) : Turns queue c s held (held.after (.dropLock lock))

section Turns

variable {c : Call sharding} {queue target : QueueRef}

theorem Call.Turns.of_eq {held after : Hold} (h : after = held) : c.Turns queue s held after :=
  h ▸ .keep

theorem Call.Turns.of_change {change : RowChange} {mid : Store}
    (hmid : ∀ other, mid.hold other = s.hold other)
    (h : s'.hold queue = if queue = target then (mid.hold target).after change else mid.hold queue)
    (hturns : target = queue → c.Turns queue s (s.hold queue) ((s.hold queue).after change)) :
    c.Turns queue s (s.hold queue) (s'.hold queue) := by
  rw [h, hmid, hmid]
  by_cases hq : queue = target
  · subst hq
    rw [if_pos rfl]
    exact hturns rfl
  · rw [if_neg hq]
    exact .keep

/-- Reserving a queue leaves what is on the queues. -/
theorem withReserved_cases {α : Type} (hs : s.Sound) (now : Instant) (queue : QueueRef)
    (f : Store → Lane → Row → Answer Store α) :
    (s.withReserved now queue f).2 = s ∨
    ∃ mid lane row, (∀ other, mid.hold other = s.hold other) ∧
      mid.lane? queue.shard = some lane ∧ lane.row? queue.name = some row ∧
      s.withReserved now queue f = f mid lane row := by
  unfold withReserved withLane
  cases hl : s.lane? queue.shard with
  | none => exact Or.inl rfl
  | some lane =>
    obtain ⟨hmem, hshard⟩ := mem_of_lane? hl
    refine Or.inr ?_
    dsimp only
    cases hrow : lane.row? queue.name with
    | some row => exact ⟨s, lane, row, fun _ => rfl, hl, hrow, rfl⟩
    | none =>
      let reserved : Lane := (lane.addItem (.placeholder s.nextId queue .none now)).addRow
        (.start queue.name s.nextId now)
      have hqueue : (⟨queue.name, lane.shard⟩ : QueueRef) = queue := by rw [hshard]
      have hmove : Move now s (.reserved s.nextId ⟨queue.name, lane.shard⟩) _ :=
        Move.lane hmem (.reserve hrow)
      rw [hqueue, replace_nil] at hmove
      refine ⟨_, reserved, .start queue.name s.nextId now, ?_, ?_, ?_, rfl⟩
      · intro other
        exact hmove.hold hs (fun c hc => by cases hc) fun hc => by cases hc
      · exact lane?_setLane_self (s := { s with nextId := s.nextId + 1 }) hl rfl
      · rw [Lane.row?_addRow]
        show (lane.row? queue.name).or _ = _
        rw [hrow]
        exact if_pos rfl

theorem Call.turns_pause (hs : s.Sound) (hc : c.request = .operate (.pause target)) :
    c.Turns queue s (s.hold queue) ((s.pause now target).2.hold queue) := by
  unfold pause
  rcases withReserved_cases hs now target _ with hsame | ⟨mid, lane, row, hmid, hl, hrow, hrun⟩
  · exact .of_eq (congrArg (·.hold queue) hsame)
  · rw [hrun]
    refine .of_change hmid (hold_change hl (c := .pause) ?_ now queue) ?_
    · exact Or.inl (hrow ▸ rfl)
    · rintro rfl
      exact .pause hc

theorem Call.turns_lock (hs : s.Sound) {lockId : String}
    (hc : c.request = .operate (.lock target lockId)) :
    c.Turns queue s (s.hold queue) ((s.lock c.clock.storeNow target lockId).2.hold queue) := by
  have hanswer : c.run s = (s.lock c.clock.storeNow target lockId).map fun _ => .done :=
    Call.run_operate hc s
  unfold lock at hanswer ⊢
  rcases withReserved_cases hs c.clock.storeNow target _ with
    hsame | ⟨mid, lane, row, hmid, hl, hrow, hrun⟩
  · exact .of_eq (congrArg (·.hold queue) hsame)
  · rw [hrun] at hanswer ⊢
    cases hlock : row.lock with
    | some held => exact .of_eq (hmid queue)
    | none =>
      rw [hlock] at hanswer
      refine .of_change hmid (hold_change hl (c := .putLock lockId) ?_ c.clock.storeNow queue) ?_
      · exact Or.inl (hrow ▸ rfl)
      · rintro rfl
        refine .lock ?_ (Or.inl ?_)
        · unfold Call.PutsLock
          rw [hanswer, hc]
          exact ⟨rfl, rfl, rfl⟩
        · rw [← hmid, hold_of_lane? hl, Lane.hold_of_row? hrow]
          exact hlock

theorem Call.turns_resume (hc : c.request = .operate (.resume target)) :
    c.Turns queue s (s.hold queue) ((s.resume target).2.hold queue) := by
  unfold resume withLane
  cases hl : s.lane? target.shard with
  | none => exact .keep
  | some lane =>
    refine .of_change (fun _ => rfl)
      (hold_change hl (c := .resume) (Or.inr rfl) c.clock.storeNow queue) ?_
    rintro rfl
    exact .resume hc

theorem Call.turns_unlock {lockId : String}
    (hc : c.request = .operate (.unlock target lockId)) :
    c.Turns queue s (s.hold queue) ((s.unlock target lockId).2.hold queue) := by
  unfold unlock withLane
  cases hl : s.lane? target.shard with
  | none => exact .keep
  | some lane =>
    dsimp only
    cases hrow : lane.row? target.name with
    | none => exact .keep
    | some row =>
      dsimp only
      split
      · rename_i hheld
        refine .of_change (fun _ => rfl)
          (hold_change hl (c := .dropLock lockId) (Or.inr rfl) c.clock.storeNow queue) ?_
        rintro rfl
        refine .unlock hc ?_
        rw [hold_of_lane? hl, Lane.hold_of_row? hrow]
        exact hheld
      · -- what is taken back from the head was not on the queue yet
        cases lane.item? row.head with
        | none => exact .keep
        | some head =>
          dsimp only
          split
          · refine .of_eq (hold_setLane_of_same hl ?_ ?_ queue)
            · rfl
            · exact fun name => rfl
          · exact .keep

theorem next_hold (hs : s.Sound) (now : Instant) (shard : Shard) (queue : QueueRef) :
    (s.next now shard).2.hold queue = s.hold queue := by
  cases hl : s.lane? shard with
  | none =>
    unfold next withLane
    rw [hl]
  | some lane =>
    rcases next_cases hs hl now with ⟨-, hrun⟩ | ⟨row, item, -, hrun⟩
    · rw [hrun]
      exact hold_setLane_of_same hl (Lane.shard_poll lane) (Lane.hold_poll lane) queue
    · rw [hrun]
      refine hold_setLane_of_same (l := lane.poll.lease now row item) hl
        (Lane.shard_poll lane) ?_ queue
      intro name
      have hlease : (lane.poll.lease now row item).hold name = lane.poll.hold name :=
        Lane.hold_updateRow_of_same lane.poll row.name name (fun _ => rfl) fun _ => rfl
      rw [hlease, Lane.hold_poll]

theorem settleRow_hold (s : Store) (id : WorkItemId) (shard : Shard) (change : RowChange)
    (hsame : ∀ held : Hold, held.after change = held) (now : Instant) (queue : QueueRef) :
    (s.settleRow id shard (change.apply now)).2.hold queue = s.hold queue := by
  rcases settleRow_cases s id shard (change.apply now) with
    ⟨e, hrun⟩ | ⟨lane, item, row, hl, -, hrun⟩
  · rw [hrun]
  · rw [hrun]
    refine hold_setLane_of_same (l := lane.updateRow item.queueName (change.apply now)) hl rfl
      ?_ queue
    intro name
    refine Lane.hold_updateRow_of_same lane _ name (RowChange.name_apply change now) ?_
    intro row
    rw [Row.hold_apply, hsame]

theorem Call.turns_complete (hs : s.Sound) {id : WorkItemId} {shard : Shard}
    (hc : c.request = .operate (.complete id shard)) :
    c.Turns queue s (s.hold queue) ((s.complete c.clock.storeNow id shard).2.hold queue) := by
  have hanswer : c.run s = (s.complete c.clock.storeNow id shard).map fun _ => .done :=
    Call.run_operate hc s
  rcases complete_spec hs c.clock.storeNow id shard with
    ⟨e, hrun⟩ | ⟨lane, item, row, locked, lane', used, messages, rfl, h⟩
  · exact .of_eq (congrArg (·.2.hold queue) hrun)
  · obtain ⟨hmem, hshard⟩ := mem_of_lane? h.here
    obtain ⟨hitem, hrow, hid⟩ := Lane.head_eq_ok_iff.1 h.head
    -- retiring the head leaves what is on the queue, so all there is to it is the lock put on first
    have hstep : ∀ name, lane'.hold name = locked.hold name :=
      fun name => h.step.hold (h.locks.sound (hs.lane h.here)) (fun c hc => by cases hc)
        fun hc => by cases hc
    have hafter : (s.complete c.clock.storeNow item.id shard).2.hold queue =
        (s.setLane locked).hold queue := by
      rw [h.run, hold_replace hmem h.shard, hold_setLane hmem h.locks.shard, hstep]
    rw [hafter]
    rcases h.locks with ⟨-, rfl⟩ | ⟨lock, hlock, rfl⟩
    · refine .of_eq (hold_setLane_of_same h.here rfl (fun name => rfl) queue)
    · have hhere : s.lane? (⟨item.queueName, shard⟩ : QueueRef).shard = some lane := h.here
      refine .of_change (fun _ => rfl)
        (hold_change hhere (c := .putLock lock) (Or.inl (hrow ▸ rfl)) c.clock.storeNow queue) ?_
      rintro rfl
      refine .lock ?_ ?_
      · unfold Call.PutsLock
        rw [hanswer, h.run, hc]
        refine ⟨rfl, ?_, item, ?_, hlock⟩
        · rw [isHead_of_lane? h.here, hrow, Option.map_some, hid]
        · rw [item?_of_lane? h.here, hitem]
      · rw [hold_of_lane? hhere, Lane.hold_of_row? hrow]
        exact h.fits lock hlock

theorem filing_hold (hs : s.Sound) {results : List EnqueueResult}
    (h : Moves now s (results.flatMap filingEvents) s') (queue : QueueRef) :
    s'.hold queue = s.hold queue := by
  have hfiled : ∀ event ∈ results.flatMap filingEvents, ∃ id target, event = .filed id target := by
    intro event he
    obtain ⟨result, -, hr⟩ := List.mem_flatMap.1 he
    exact eq_filed_of_mem hr
  refine h.hold hs ?_ ?_
  · intro event he c hc
    obtain ⟨id, target, rfl⟩ := hfiled event he
    cases hc
  · intro he
    obtain ⟨id, target, hc⟩ := hfiled _ he
    cases hc

theorem enqueue_hold (hs : s.Sound) (now : Instant) (freshName : String) (item : NewItem)
    (queue : QueueRef) : (s.enqueue now freshName item).2.hold queue = s.hold queue := by
  unfold enqueue
  cases hprepare : item.prepare s.sharding freshName with
  | error e => rfl
  | ok p =>
    obtain ⟨result, s', hrun, hmoves⟩ := insert_moves hs ⟨freshName, item, hprepare⟩ now
    dsimp only
    rw [hrun]
    have hone : Moves now s ([result].flatMap filingEvents) s' := by simpa using hmoves
    exact filing_hold hs hone queue

theorem commit_hold (hs : s.Sound) {tx : JobTransaction} (isOpen : tx.IsOpen s.sharding)
    (now : Instant) (queue : QueueRef) : (s.commit now tx).2.hold queue = s.hold queue := by
  obtain ⟨s', hinsert, hmoves⟩ := insertAll_moves hs isOpen.isFor now
  unfold commit
  rw [hinsert]
  exact filing_hold hs hmoves queue

theorem purge_hold (hs : s.Sound) (now : Instant) (shard : Shard) (queue : QueueRef) :
    (s.purge now shard).2.hold queue = s.hold queue := by
  rcases purge_cases now shard s with hsame | hmove
  · rw [hsame]
  · exact hmove.hold hs (fun c hc => by cases hc) fun hc => by cases hc

theorem reset_hold (s : Store) (now : Instant) (target queue : QueueRef) :
    (s.reset now target).2.hold queue = s.hold queue := by
  unfold reset withLane
  cases hl : s.lane? target.shard with
  | none => rfl
  | some lane =>
    refine hold_setLane_of_same hl ?_ ?_ queue
    · rfl
    · exact fun name => Lane.hold_updateRow_of_same lane _ name (fun _ => rfl) fun _ => rfl

/-- No call turns the hold of a queue in any other way, unless it removes everything. -/
theorem Call.turns (hs : s.Sound) (c : Call s.sharding) (hclear : c.request ≠ .operate .clear)
    (queue : QueueRef) : c.Turns queue s (s.hold queue) ((c.run s).2.hold queue) := by
  have hmap : ∀ {α β : Type} {answer : Answer Store α} {f : α → β},
      c.Turns queue s (s.hold queue) (answer.2.hold queue) →
      c.Turns queue s (s.hold queue) ((answer.map f).2.hold queue) := by
    intro α β answer f h
    rwa [Answer.map_snd]
  cases hc : c.request with
  | commit tx isOpen =>
    unfold Call.run
    rw [hc]
    exact hmap (.of_eq (commit_hold hs isOpen c.clock.storeNow queue))
  | operate operation =>
    rw [Call.run_operate hc]
    cases operation with
    | enqueue freshName item =>
      exact hmap (.of_eq (enqueue_hold hs c.clock.storeNow freshName item queue))
    | next shard => exact hmap (.of_eq (next_hold hs c.clock.storeNow shard queue))
    | complete id shard => exact hmap (turns_complete hs hc)
    | fail id shard =>
      exact hmap (.of_eq (settleRow_hold s id shard .fail (fun _ => rfl) c.clock.storeNow queue))
    | delay id shard =>
      exact hmap (.of_eq (settleRow_hold s id shard .delay (fun _ => rfl) c.clock.storeNow queue))
    | purge shard => exact hmap (.of_eq (purge_hold hs c.clock.storeNow shard queue))
    | pause target => exact hmap (turns_pause hs hc)
    | resume target => exact hmap (turns_resume hc)
    | reset target => exact hmap (.of_eq (reset_hold s c.clock.storeNow target queue))
    | lock target lockId => exact hmap (turns_lock hs hc)
    | unlock target lockId => exact hmap (turns_unlock hc)
    | clear => exact absurd hc hclear

end Turns

end Store

end Courier
