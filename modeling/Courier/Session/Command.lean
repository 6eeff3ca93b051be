/-
  Courier/Session/Command.lean
  ============================
  **What can be asked of a service in a session, and what it replies.**

  A session is a conversation with a service whose time moves only when it is
  told to.  Commands operate the store, the transactions on its table of jobs, the
  workers and the clocks.  A command that makes no sense at the moment is refused;
  one that fails is replied to with its cause.
-/
import Courier.Backend.Outage
import Courier.Health
import Courier.Supervisor

namespace Courier.Session

open Courier.Time

/-! ### Commands -/

/-- An item that is to be settled. -/
inductive ItemRef where
  | number (id : WorkItemId) (shard : Shard)
  /-- The item that was claimed last. -/
  | claimed
deriving DecidableEq, Repr

/-- How an item is settled. -/
inductive Settlement where
  | complete
  | fail
  | delay
deriving DecidableEq, Repr

/-- What can be asked. -/
inductive Command where
  /-- Files an item. -/
  | enqueue (item : NewItem)
  /-- Settles an item. -/
  | settle (how : Settlement) (item : ItemRef)
  /-- Any other operation of the store. -/
  | operate (operation : Operation)
  /-- Shows a queue. -/
  | state (queue : QueueRef)
  /-- Lists the pending items of a queue. -/
  | pending (queue : QueueRef)
  /-- Lists the completed items of a shard. -/
  | completed (shard : Shard)
  /-- Shows how the queues are. -/
  | health
  /-- Moves the clock that the store goes by. -/
  | advance (span : Span)
  /-- Lets time pass. -/
  | sleep (span : Span)
  /-- Claims and completes items, shard by shard, until none is left to claim. -/
  | completeAll
  /-- Files, claims and completes a number of items of a queue. -/
  | fill (queue : QueueRef) (count : Nat)
  /-- Lists the scheduled jobs on record. -/
  | jobRecords
  /-- Opens a transaction. -/
  | begin_
  /-- Makes the record of a job in the open transaction. -/
  | createJob (name : String)
  /-- Reads the record of a job in the open transaction. -/
  | selectJob (name : String)
  /-- Changes when a job last ran, in the open transaction; now, if nothing else is said. -/
  | updateJob (name : String) (at_ : Option Instant)
  /-- Files an item in the open transaction. -/
  | enqueueJob (item : NewItem)
  /-- Commits the open transaction. -/
  | commit
  /-- Drops the open transaction. -/
  | abandon
  /-- Judges the scheduled jobs at an instant; now, if nothing else is said. -/
  | tick (now : Option Instant)
  /-- Runs one execution of a worker that fires jobs. -/
  | fireJobs
  /-- Requests the first pending item of a queue without settling it. -/
  | dispatch (queue : QueueRef)
  /-- Runs one execution of a consumer that is kept for the shard. -/
  | consume (shard : Shard)
  /-- Runs one execution of the service's consumer that owns a queue name. -/
  | processOne (queueName : String)
  /-- Runs the service's consumers until they claim nothing. -/
  | drain
  /-- Reports the health of the service. -/
  | report
  /-- Shows how the queues are, as far as the service can tell. -/
  | serviceHealth
  /-- Wakes the service's consumers. -/
  | pollNow
  /-- Starts the service's loops. -/
  | start
  /-- Ends the service's loops. -/
  | shutdown
  /-- Makes a method of the service's store fail for a reason, or lets it work again. -/
  | inject (method : Method) (reason : Option String)
  /-- Sets the jobs that the service's store reports inactive. -/
  | inactive (names : List String)
  /-- Sets whether the service's store reports its table of jobs empty. -/
  | stale (on_ : Bool)

/-! ### Replies -/

/-- Why a command is refused. -/
inductive Refusal where
  | nothingClaimed
  | noTransaction
  | transactionOpen
  | noPendingItem
deriving DecidableEq, Repr

/-- The wording of a refusal. -/
def Refusal.message : Refusal → String
  | .nothingClaimed => "nothing claimed"
  | .noTransaction => "no transaction"
  | .transactionOpen => "transaction open"
  | .noPendingItem => "no pending item"

/-- What is replied. -/
inductive Reply where
  | done
  | flag (value : Bool)
  | count (n : Nat)
  | enqueued (result : EnqueueResult)
  | claimed (item : Option WorkItem)
  | state (queue : Option QueueState)
  | items (items : List WorkItem)
  | completed (items : List CompletedItem)
  | health (health : QueueHealth)
  /-- The items that were completed, each with its URL. -/
  | delivered (items : List (WorkItemId × String))
  | jobRecords (records : List JobRecord)
  | jobRecord (record : JobRecord)
  | outcome (outcome : Outcome)
  /-- An execution of a consumer, and whether it reported more work. -/
  | consumed (more : Bool) (consumer : Consumer)
  /-- An execution of a worker that fires jobs, and how often it has woken the consumers so far. -/
  | fired (woken : Nat) (jobs : List String)
  | report (report : HealthReport)
  | failed (error : Error)
  | refused (refusal : Refusal)

/-- The reply with a result. -/
def Reply.ofResult {α : Type} (f : α → Reply) : Except Error α → Reply
  | .ok a => f a
  | .error e => .failed e

/-- The reply with the value of an operation. -/
def Reply.ofValue : Operation.Value → Reply
  | .done => .done
  | .enqueued result => .enqueued result
  | .claimed item => .claimed item
  | .removed n => .count n

end Courier.Session
