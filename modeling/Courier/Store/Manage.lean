/-
  Courier/Store/Manage.lean
  =========================
  **What operators do: pause, lock, reset, purge.**

  Pausing or locking a queue that has no row reserves the queue: it gets a row
  headed by a placeholder.  Resuming, resetting and unlocking a queue without a
  row does nothing.  Releasing a lock also takes it back from the head of the
  queue if it was only going to be put on at completion.  A purge removes the
  oldest completed items past their retention, a bounded number at a time.
-/
import Courier.Store.Basic

namespace Courier

open Courier.Time

namespace Store

/-! ### Reserving a queue -/

/-- Makes sure that a queue has a row and goes on with it. -/
def withReserved {α : Type} (now : Instant) (queue : QueueRef) (s : Store)
    (f : Store → Lane → Row → Answer Store α) : Answer Store α :=
  s.withLane queue.shard fun lane =>
    match lane.row? queue.name with
    | some row => f s lane row
    | none =>
      let id := s.nextId
      let row := Row.start queue.name id now
      let lane := (lane.addItem (.placeholder id queue .none now)).addRow row
      f ({ s with nextId := id + 1 }.setLane lane) lane row

/-- Pauses a queue. -/
def pause (now : Instant) (queue : QueueRef) (s : Store) : Answer Store Unit :=
  s.withReserved now queue fun s lane _ =>
    (.ok (), s.setLane (lane.updateRow queue.name fun row => { row with isPaused := true }))

/-- Puts a lock on a queue that has none. -/
def lock (now : Instant) (queue : QueueRef) (lockId : String) (s : Store) : Answer Store Unit :=
  s.withReserved now queue fun s lane row =>
    match row.lock with
    | some held => (.error (.alreadyLocked queue.name held), s)
    | none =>
      (.ok (), s.setLane (lane.updateRow queue.name fun row => { row with lock := some lockId }))

/-! ### Changing a queue that may be absent -/

/-- Resumes a paused queue. -/
def resume (queue : QueueRef) (s : Store) : Answer Store Unit :=
  s.withLane queue.shard fun lane =>
    (.ok (), s.setLane (lane.updateRow queue.name fun row => { row with isPaused := false }))

/-- Clears the errors and the backoff of a queue. -/
def reset (now : Instant) (queue : QueueRef) (s : Store) : Answer Store Unit :=
  s.withLane queue.shard fun lane =>
    (.ok (), s.setLane (lane.updateRow queue.name fun row =>
      { row with errorCount := 0, lockedUntil := now }))

/-- Releases a lock of a queue, or the same lock before the head of the queue puts it on. -/
def unlock (queue : QueueRef) (lockId : String) (s : Store) : Answer Store Unit :=
  s.withLane queue.shard fun lane =>
    match lane.row? queue.name with
    | none => (.ok (), s)
    | some row =>
      if row.lock = some lockId then
        (.ok (), s.setLane (lane.updateRow queue.name fun row => { row with lock := none }))
      else
        match lane.item? row.head with
        | some head =>
          if head.lockWhenComplete = some lockId then
            (.ok (), s.setLane (lane.setItem { head with lockWhenComplete := none }))
          else (.ok (), s)
        | none => (.ok (), s)

/-! ### Completed items -/

/-- Removes the first completed items before a cutoff, at most a number of them; also counts
    them. -/
def purged (cutoff : Instant) : Nat → List CompletedItem → List CompletedItem × Nat
  | _, [] => ([], 0)
  | budget, done :: rest =>
    if done.completedAt < cutoff ∧ 0 < budget then
      let (kept, removed) := purged cutoff (budget - 1) rest
      (kept, removed + 1)
    else
      let (kept, removed) := purged cutoff budget rest
      (done :: kept, removed)

/-- Removes one batch of completed items past their retention. -/
def purge (now : Instant) (shard : Shard) (s : Store) : Answer Store Nat :=
  s.withLane shard fun lane =>
    let (kept, removed) := purged (now - completedRetention) purgeBatchSize lane.completed
    (.ok removed, s.setLane { lane with completed := kept })

/-- Removes everything; item numbers go on counting. -/
def clear (s : Store) : Store :=
  { s with lanes := s.lanes.map fun lane => .empty lane.shard, jobs := [] }

end Store

end Courier
