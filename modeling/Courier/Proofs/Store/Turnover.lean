/-
  Courier/Proofs/Store/Turnover.lean
  ==================================
  **What becomes of the row of a queue.**

  Every step of a lane goes through its rows, and most leave those of most queues
  alone.  `RowStep` lists all that a move can make of the row of one queue, and
  `Store.Move.row?` says that no move does anything else.  What is known of a row
  from one call to the next follows case by case, without a look at the lane.
-/
import Courier.Proofs.Store.Trace

namespace Courier

open Courier.Time

/-- Whether an event is about the row of a queue: a change to it, the completion of its head or the
    removal of everything. -/
def Event.Rewrites (queue : QueueRef) : Event → Prop
  | .changed target _ => target = queue
  | .completed item => item.queueRef = queue
  | .cleared => True
  | _ => False

/-- What a move makes of the row of a queue. -/
inductive RowStep (now : Instant) (queue : QueueRef) : Event → Option Row → Option Row → Prop where
  | keep {event : Event} {row? : Option Row} (apart : ¬ event.Rewrites queue) :
      RowStep now queue event row? row?
  | start {event : Event} {id : WorkItemId} {at_ : Instant} (apart : ¬ event.Rewrites queue) :
      RowStep now queue event none (some (.start queue.name id at_))
  | lease {item : WorkItem} {row : Row} (late : row.lockedUntil < now)
      (untripped : row.errorCount < greatestErrorCount) :
      RowStep now queue (.claimed item) (some row)
        (some { row with lockedUntil := now + leaseDuration })
  | change (c : RowChange) (row? : Option Row) :
      RowStep now queue (.changed queue c) row? (row?.map (c.apply now))
  | rehead {item : WorkItem} {row : Row} {head : WorkItemId} {at_ : Instant}
      (own : item.queueRef = queue) (retired : row.head = item.id) (other : head ≠ item.id) :
      RowStep now queue (.completed item) (some row) (some (row.rehead head at_))
  | remove {item : WorkItem} {row : Row} (own : item.queueRef = queue)
      (retired : row.head = item.id) (free : row.isPaused = false ∧ row.lock = none) :
      RowStep now queue (.completed item) (some row) none
  | clear (row? : Option Row) : RowStep now queue .cleared row? none

theorem le_leased (now : Instant) : now ≤ now + leaseDuration :=
  Int.le_add_of_nonneg_right (by decide)

/-! ### Steps of a lane -/

namespace Lane

variable {sharding : Sharding} {now : Instant} {fresh : WorkItemId} {l l' : Lane} {event : Event}
variable {used : Int} {messages : List BlockingMessage}

theorem not_rewrites_completed {item : WorkItem} {name : String}
    (hname : name ≠ item.queueName) : ¬ (Event.completed item).Rewrites ⟨name, l.shard⟩ :=
  fun h => hname (congrArg QueueRef.name h).symm

/-- A step is about rows of its own lane only. -/
theorem Step.shard_of_rewrites (h : l.Step sharding now fresh event l' used messages)
    (hs : l.Sound sharding fresh) {queue : QueueRef} (hr : event.Rewrites queue) :
    queue.shard = l.shard := by
  have hcompleted : ∀ {item : WorkItem} {row : Row}, l.head item.id = .ok (item, row) →
      (Event.completed item).Rewrites queue → queue.shard = l.shard := by
    intro item row head h
    rw [← show item.queueRef = queue from h]
    exact hs.here item (mem_of_head head).1
  cases h with
  | change fits => exact (congrArg QueueRef.shard hr).symm
  | advance head free locked successor => exact hcompleted head hr
  | relay head free locked last kept => exact hcompleted head hr
  | finish head free unlocked last given => exact hcompleted head hr
  | _ => exact hr.elim

/-- All that a step makes of the row of a queue. -/
theorem Step.row? (h : l.Step sharding now fresh event l' used messages)
    (hs : l.Sound sharding fresh) (name : String) :
    RowStep now ⟨name, l.shard⟩ event (l.row? name) (l'.row? name) := by
  cases h with
  | file isFor here single => exact .keep id
  | @reserve reserved free =>
    have hrow : ((l.addItem (.placeholder fresh ⟨reserved, l.shard⟩ .none now)).addRow
        (.start reserved fresh now)).row? name =
          (l.row? name).or (if reserved = name then some (.start reserved fresh now) else none) :=
      row?_addRow _ _ _
    rw [hrow]
    by_cases hname : reserved = name
    · rw [← hname, free, if_pos rfl]
      exact .start id
    · rw [if_neg hname, Option.or_none]
      exact .keep id
  | poll =>
    rcases l.row?_poll_cases name with hsame | ⟨hnone, number, at_, hstart⟩
    · rw [hsame]
      exact .keep id
    · rw [hnone, hstart]
      exact .start id
  | @claim row item first found =>
    obtain ⟨hr, hlate, huntripped, -⟩ := mem_of_candidate? first
    have hrow : (l.lease now row item).row? name =
        if name = row.name then
          (l.row? name).map fun r => { r with lockedUntil := now + leaseDuration }
        else l.row? name :=
      row?_updateRow l row.name name _ fun _ => rfl
    rw [hrow]
    by_cases hname : name = row.name
    · rw [if_pos hname, hname, hs.row?_of_mem hr]
      exact .lease hlate huntripped
    · rw [if_neg hname]
      exact .keep id
  | @change changed c fits =>
    rw [row?_updateRow l changed name _ (c.name_apply now)]
    by_cases hname : name = changed
    · subst hname
      rw [if_pos rfl]
      exact .change c _
    · rw [if_neg hname]
      exact .keep fun h => hname (congrArg QueueRef.name h).symm
  | release row? head deferred => exact .keep id
  | purge => exact .keep id
  | @advance item next row head free locked successor =>
    obtain ⟨hitem, hrow, hid⟩ := head_eq_ok_iff.1 head
    have hafter : ((l.updateRow item.queueName (·.rehead next.id next.createdAt)).retire
        item now).row? name =
          if name = item.queueName then (l.row? name).map (·.rehead next.id next.createdAt)
          else l.row? name :=
      row?_updateRow l item.queueName name (·.rehead next.id next.createdAt) fun _ => rfl
    rw [hafter]
    by_cases hname : name = item.queueName
    · rw [if_pos hname, hname, hrow]
      refine .rehead ?_ hid (successor?_spec successor).2.2.2
      exact congrArg (QueueRef.mk item.queueName) (hs.here item (mem_of_item? hitem).1)
    · rw [if_neg hname]
      exact .keep (not_rewrites_completed hname)
  | @relay item row head free locked last kept =>
    obtain ⟨hitem, hrow, hid⟩ := head_eq_ok_iff.1 head
    have hafter : (((l.addItem (.placeholder fresh item.queueRef item.blocking now)).updateRow
        item.queueName (·.rehead fresh now)).retire item now).row? name =
          if name = item.queueName then (l.row? name).map (·.rehead fresh now)
          else l.row? name :=
      row?_updateRow (l.addItem _) item.queueName name (·.rehead fresh now) fun _ => rfl
    rw [hafter]
    by_cases hname : name = item.queueName
    · rw [if_pos hname, hname, hrow]
      refine .rehead ?_ hid (Int.ne_of_lt (hs.below item (mem_of_item? hitem).1)).symm
      exact congrArg (QueueRef.mk item.queueName) (hs.here item (mem_of_item? hitem).1)
    · rw [if_neg hname]
      exact .keep (not_rewrites_completed hname)
  | @finish item row head free unlocked last given =>
    obtain ⟨hitem, hrow, hid⟩ := head_eq_ok_iff.1 head
    have hafter : ((l.removeRow item.queueName).retire item now).row? name =
        if name = item.queueName then none else l.row? name :=
      row?_removeRow l item.queueName name
    rw [hafter]
    by_cases hname : name = item.queueName
    · rw [if_pos hname, hname, hrow]
      refine .remove ?_ hid given
      exact congrArg (QueueRef.mk item.queueName) (hs.here item (mem_of_item? hitem).1)
    · rw [if_neg hname]
      exact .keep (not_rewrites_completed hname)

end Lane

/-! ### Moves of a store -/

namespace Store

variable {s s' : Store} {now : Instant} {event : Event} {queue : QueueRef}

theorem row?_replace {lane lane' : Lane} (hs : s.Sound) (hl : lane ∈ s.lanes)
    (hshard : lane'.shard = lane.shard) (used : Int) (messages : List BlockingMessage)
    (queue : QueueRef) :
    (s.replace lane' used messages).row? queue =
      if queue.shard = lane.shard then lane'.row? queue.name else s.row? queue := by
  unfold Store.row?
  rw [lane?_replace, hshard]
  by_cases hq : queue.shard = lane.shard
  · rw [if_pos hq, if_pos hq, hq, hs.lane?_of_mem hl]
    rfl
  · rw [if_neg hq, if_neg hq]
    cases s.lane? queue.shard <;> rfl

/-- Where no lane has a row, no queue has one. -/
theorem row?_of_no_rows (h : ∀ lane ∈ s.lanes, lane.rows = []) (queue : QueueRef) :
    s.row? queue = none := by
  unfold Store.row?
  cases hl : s.lane? queue.shard with
  | none => rfl
  | some lane =>
    show lane.rows.find? _ = none
    rw [h lane (mem_of_lane? hl).1]
    rfl

theorem row?_empty (sharding : Sharding) (queue : QueueRef) :
    (empty sharding).row? queue = none := by
  refine row?_of_no_rows (fun lane hl => ?_) queue
  obtain ⟨shard, -, rfl⟩ := List.mem_map.1 hl
  rfl

theorem row?_clear (s : Store) (queue : QueueRef) : s.clear.row? queue = none := by
  refine row?_of_no_rows (fun lane hl => ?_) queue
  obtain ⟨old, -, rfl⟩ := List.mem_map.1 hl
  rfl

/-- All that a move makes of the row of a queue. -/
theorem Move.row? (h : Move now s event s') (hs : s.Sound) (queue : QueueRef) :
    RowStep now queue event (s.row? queue) (s'.row? queue) := by
  cases h with
  | record jobs => exact .keep id
  | clear =>
    rw [row?_clear]
    exact .clear _
  | @lane lane lane' event used messages mem step =>
    rw [row?_replace hs mem step.shard]
    by_cases hq : queue.shard = lane.shard
    · have hrow : s.row? queue = lane.row? queue.name := by
        unfold Store.row?
        rw [hq, hs.lane?_of_mem mem]
        rfl
      rw [if_pos hq, hrow]
      have hstep := step.row? (hs.lanes lane mem) queue.name
      rwa [← hq] at hstep
    · rw [if_neg hq]
      exact .keep fun hr => hq (step.shard_of_rewrites (hs.lanes lane mem) hr)

theorem Moves.split {events : List Event} {last : Event}
    (h : Moves now s (events ++ [last]) s') :
    ∃ mid, Moves now s events mid ∧ Move now mid last s' := by
  induction events generalizing s with
  | nil =>
    cases h with
    | cons move rest =>
      cases rest
      exact ⟨s, .nil s, move⟩
  | cons event events ih =>
    cases h with
    | cons move rest =>
      obtain ⟨mid, hmoves, hlast⟩ := ih rest
      exact ⟨mid, .cons move hmoves, hlast⟩

end Store

end Courier
