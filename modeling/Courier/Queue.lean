/-
  Courier/Queue.lean
  ==================
  **Queues: leases, blocks and the mailbox between shards.**

  A queue hands out its head, one item at a time.  `QueueState` is what can be
  seen of a queue: its head, the errors counted since the head last changed, the
  instant until which it is leased or backed off, its pause, its external lock and
  the outstanding items that keep it blocked.  `QueueState.IsClaimable` says when
  its head may be handed out.  Changes to the blocks of a queue travel between
  shards as `BlockingMessage`s.
-/
import Courier.WorkItem

namespace Courier

open Courier.Time

/-! ### The constants of the lease protocol -/

/-- How long a claimed item is leased. -/
def leaseDuration : Span := .ofHours 1

/-- How long a queue rests after a failure. -/
def failureBackoff : Span := .ofMinutes 5

/-- A queue with this many errors is not claimed any more. -/
def greatestErrorCount : Nat := 5

/-- How many completed items one purge removes at most. -/
def purgeBatchSize : Nat := 1000

/-- How long completed items are kept. -/
def completedRetention : Span := .ofDays 14

/-! ### Blocks -/

/-- An outstanding item that keeps a queue blocked. -/
structure BlockToken where
  workItemId : WorkItemId
  shard : Shard
deriving DecidableEq, Repr, Inhabited

/-- A change to the blocks of a queue, on its way to the queue's shard. -/
structure BlockingMessage where
  target : QueueRef
  /-- Whether the token is added or removed. -/
  isCreatingBlock : Bool
  token : BlockToken
deriving DecidableEq, Repr, Inhabited

/-- A list of tokens after a change. -/
def BlockingMessage.change (m : BlockingMessage) (tokens : List BlockToken) : List BlockToken :=
  if m.isCreatingBlock then
    if m.token ∈ tokens then tokens else tokens ++ [m.token]
  else tokens.filter (· ≠ m.token)

/-! ### The state of a queue -/

/-- What can be seen of a queue. -/
structure QueueState where
  shard : Shard
  name : String
  /-- The item handed out next. -/
  head : WorkItemId
  errorCount : Int
  /-- The end of the lease or of the backoff. -/
  lockedUntil : Instant
  isPaused : Bool
  externalLock : Option String
  blockedBy : List BlockToken
deriving DecidableEq, Repr, Inhabited

namespace QueueState

/-- Whether the head of the queue may be handed out at an instant. -/
def IsClaimable (q : QueueState) (now : Instant) : Prop :=
  q.lockedUntil < now ∧ q.errorCount < greatestErrorCount ∧ q.isPaused = false
    ∧ q.externalLock = none ∧ q.blockedBy = []

instance (q : QueueState) (now : Instant) : Decidable (q.IsClaimable now) :=
  inferInstanceAs (Decidable (_ ∧ _))

/-- The queue of the state. -/
def queueRef (q : QueueState) : QueueRef := ⟨q.name, q.shard⟩

end QueueState

/-! ### The health of the queues -/

/-- How the queues of a deployment are. -/
structure QueueHealth where
  healthy : Bool
  /-- The number of queues that have reached the greatest error count. -/
  unhealthyQueues : Int
deriving DecidableEq, Repr, Inhabited

/-- The health of queues of which a number have reached the greatest error count. -/
def QueueHealth.ofUnhealthyCount (n : Int) : QueueHealth := ⟨n = 0, n⟩

/-! ### Scheduled jobs on record -/

/-- What is on record about a scheduled job. -/
structure JobRecord where
  name : String
  lastRanAt : Instant
  active : Bool
deriving DecidableEq, Repr, Inhabited

/-- The record of a job that never ran. -/
def JobRecord.neverRan (name : String) : JobRecord := ⟨name, .epoch, true⟩

end Courier
