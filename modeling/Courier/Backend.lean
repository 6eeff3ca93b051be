/-
  Courier/Backend.lean
  ====================
  **What every store of work items can do.**

  A backend holds the work items, the queues, the blocks between queues and the
  table of scheduled jobs.  Every operation answers with a value or a cause of
  failure *and* with the state it leaves (`Answer`): that a failure leaves the
  state as it was is a theorem about the operations, not a matter of their type.
  The clocks are passed in, because backends differ in the clock they go by.

  `Operation` lists the operations that operators and consumers ask for, and
  `Operation.run` carries one out, so that a history of a backend is a list of
  operations with the clocks at which they ran.
-/
import Courier.Queue
import Courier.Time.Clock

namespace Courier

open Courier.Time

/-- What an operation answers, with the state it leaves. -/
abbrev Answer (σ α : Type) := Except Error α × σ

/-- Answers as another operation does, with a function of its value. -/
def Answer.map {σ α β : Type} (f : α → β) : Answer σ α → Answer σ β
  | (.ok a, s) => (.ok (f a), s)
  | (.error e, s) => (.error e, s)

/-! ### The interface -/

/-- A store of work items. -/
class Backend (σ : Type) where
  /-- A transaction on the table of scheduled jobs that is neither committed nor abandoned. -/
  Transaction : Type
  /-- The sharding of queue names. -/
  sharding : σ → Sharding
  /-- Files an item; the text is the queue name of an item that names none. -/
  enqueue : Clock → String → NewItem → σ → Answer σ EnqueueResult
  /-- Claims the next item of a shard. -/
  next : Clock → Shard → σ → Answer σ (Option WorkItem)
  /-- Completes a claimed item. -/
  complete : Clock → WorkItemId → Shard → σ → Answer σ Unit
  /-- Counts an error of a claimed item and backs its queue off. -/
  fail : Clock → WorkItemId → Shard → σ → Answer σ Unit
  /-- Gives a claimed item back without counting an error. -/
  delay : Clock → WorkItemId → Shard → σ → Answer σ Unit
  /-- Removes one batch of completed items past their retention and counts them. -/
  purge : Clock → Shard → σ → Answer σ Nat
  /-- Pauses a queue, which is reserved if it is not in use. -/
  pause : Clock → QueueRef → σ → Answer σ Unit
  /-- Resumes a paused queue. -/
  resume : QueueRef → σ → Answer σ Unit
  /-- Clears the errors and the backoff of a queue. -/
  reset : Clock → QueueRef → σ → Answer σ Unit
  /-- Puts a lock on a queue, which is reserved if it is not in use. -/
  lock : Clock → QueueRef → String → σ → Answer σ Unit
  /-- Releases a lock of a queue. -/
  unlock : QueueRef → String → σ → Answer σ Unit
  /-- Removes everything; item numbers go on counting. -/
  clear : σ → Answer σ Unit
  /-- What can be seen of a queue. -/
  queueState : QueueRef → σ → Except Error (Option QueueState)
  /-- The pending items of a queue, oldest first. -/
  pending : QueueRef → σ → Except Error (List WorkItem)
  /-- The completed items of a shard. -/
  completed : Shard → σ → Except Error (List CompletedItem)
  /-- How the queues are. -/
  health : σ → Except Error QueueHealth
  /-- The scheduled jobs on record, by name. -/
  jobRecords : σ → Except Error (List JobRecord)
  /-- The number of pending items. -/
  pendingCount : σ → Nat
  /-- Opens a transaction. -/
  begin_ : σ → Except Error Transaction
  /-- Makes a record for a job that has none. -/
  createJob : String → σ → Transaction → Answer Transaction Unit
  /-- Reads the record of a job. -/
  selectJob : String → σ → Transaction → Answer Transaction JobRecord
  /-- Changes the instant at which a job last ran. -/
  updateJob : String → Instant → σ → Transaction → Answer Transaction Unit
  /-- Files an item along with the changes of the transaction. -/
  enqueueJob : Clock → String → NewItem → σ → Transaction → Answer Transaction Unit
  /-- Makes the changes of a transaction. -/
  commit : Clock → Transaction → σ → Answer σ Unit
  /-- Drops the changes of a transaction. -/
  abandon : Transaction → σ → σ

/-! ### Operations as data -/

/-- What operators and consumers ask for. -/
inductive Operation where
  /-- `freshName` is the queue name of an item that names none. -/
  | enqueue (freshName : String) (item : NewItem)
  | next (shard : Shard)
  | complete (id : WorkItemId) (shard : Shard)
  | fail (id : WorkItemId) (shard : Shard)
  | delay (id : WorkItemId) (shard : Shard)
  | purge (shard : Shard)
  | pause (queue : QueueRef)
  | resume (queue : QueueRef)
  | reset (queue : QueueRef)
  | lock (queue : QueueRef) (lockId : String)
  | unlock (queue : QueueRef) (lockId : String)
  | clear
deriving DecidableEq, Repr

/-- The value with which an operation is answered. -/
inductive Operation.Value where
  | done
  | enqueued (result : EnqueueResult)
  | claimed (item : Option WorkItem)
  | removed (count : Nat)
deriving DecidableEq, Repr

/-- Carries out an operation. -/
def Operation.run {σ : Type} [Backend σ] (clock : Clock) (s : σ) :
    Operation → Answer σ Operation.Value
  | .enqueue freshName item => (Backend.enqueue clock freshName item s).map .enqueued
  | .next shard => (Backend.next clock shard s).map .claimed
  | .complete id shard => (Backend.complete clock id shard s).map fun _ => .done
  | .fail id shard => (Backend.fail clock id shard s).map fun _ => .done
  | .delay id shard => (Backend.delay clock id shard s).map fun _ => .done
  | .purge shard => (Backend.purge clock shard s).map .removed
  | .pause queue => (Backend.pause clock queue s).map fun _ => .done
  | .resume queue => (Backend.resume queue s).map fun _ => .done
  | .reset queue => (Backend.reset clock queue s).map fun _ => .done
  | .lock queue lockId => (Backend.lock clock queue lockId s).map fun _ => .done
  | .unlock queue lockId => (Backend.unlock queue lockId s).map fun _ => .done
  | .clear => (Backend.clear s).map fun _ => .done

end Courier
