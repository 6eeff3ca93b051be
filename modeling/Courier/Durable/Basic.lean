/-
  Courier/Durable/Basic.lean
  ==========================
  **The durable store: what a database adds to the in-process one.**

  A durable store keeps the same items, queues and jobs in the tables of a
  database, with four differences.  Any shard may be asked for, also one of another
  deployment.  Instants are kept at microsecond precision.  Every operation is a
  transaction, so a failure leaves nothing but the item numbers that it used up.
  And a statement can fail in ways of its own: its table may not have been made
  yet, or a text may hold the character NUL.
-/
import Courier.Store.Claim
import Courier.Store.JobTable
import Courier.Store.Manage
import Courier.Store.Settle

namespace Courier

open Courier.Time

/-! ### Lanes on demand -/

/-- Makes sure that there is a lane for a shard. -/
def Store.withLaneFor (s : Store) (shard : Shard) : Store :=
  if (s.lane? shard).isSome then s else { s with lanes := s.lanes ++ [.empty shard] }

/-! ### Tables and statements -/

/-- The tables that statements begin with. -/
inductive Table where
  | workItem
  | completed
  | queue
  | cronJob
deriving DecidableEq, Repr

/-- The name of a table. -/
def Table.name : Table → String
  | .workItem => "work_item"
  | .completed => "work_item_completed"
  | .queue => "queue"
  | .cronJob => "cron_job"

/-- The durable store. -/
structure Durable where
  store : Store
  /-- Whether the tables have been made. -/
  migrated : Bool := true
deriving DecidableEq

namespace Durable

/-- A durable store without items. -/
def empty (sharding : Sharding) (migrated : Bool := true) : Durable :=
  { store := .empty sharding, migrated }

/-- Whether a text holds the character NUL. -/
def holdsNul (text : String) : Bool := text.toList.contains '\x00'

/-- What keeps a statement on a table from running with the texts given. -/
def fault? (d : Durable) (table : Table) (texts : List String) : Option Error :=
  if !d.migrated then some (.database (.noTable table.name))
  else if texts.any holdsNul then some (.database .nulCharacter)
  else none

/-- Reads by a statement. -/
def read {α : Type} (d : Durable) (table : Table) (texts : List String) (f : Store → α) :
    Except Error α :=
  match d.fault? table texts with
  | some e => .error e
  | none => .ok (f d.store)

/-- Runs an operation on a shard as a transaction: a failure is undone. -/
def transact {α : Type} (d : Durable) (table : Table) (texts : List String) (shard : Shard)
    (run : Store → Answer Store α) : Answer Durable α :=
  match d.fault? table texts with
  | some e => (.error e, d)
  | none =>
    match run (d.store.withLaneFor shard) with
    | (.ok a, store) => (.ok a, { d with store })
    | (.error e, _) => (.error e, d)

/-- Goes on counting item numbers from where another state of the store is. -/
def withNumbersOf (d : Durable) (other : Durable) : Durable :=
  { d with store := { d.store with nextId := other.store.nextId } }

/-! ### Filing and claiming -/

/-- The texts that are written for a prepared item. -/
def itemTexts (p : PreparedItem) : List String :=
  [p.url, p.queue.name] ++ p.debugInfo.toList ++ p.internal.toList
    ++ (p.blocking.target?.map (·.name)).toList ++ p.lockWhenComplete.toList

/-- Files a prepared item. -/
def insert (now : Instant) (p : PreparedItem) (d : Durable) : Answer Durable EnqueueResult :=
  let duplicate := (d.store.lane? p.queue.shard).bind (·.duplicate? p)
  let texts := if duplicate.isSome then [] else itemTexts p
  d.transact .workItem texts p.queue.shard fun s =>
    match p.blocking.target? with
    | some target => (s.withLaneFor target.shard).insert now p
    | none => s.insert now p

/-- Files an item.  `freshName` is the queue name of an item that names none. -/
def enqueue (now : Instant) (freshName : String) (item : NewItem) (d : Durable) :
    Answer Durable EnqueueResult :=
  match item.prepare d.store.sharding freshName with
  | .error e => (.error e, d)
  | .ok p => d.insert now p

/-- Claims the next item of a shard. -/
def next (now : Instant) (shard : Shard) (d : Durable) : Answer Durable (Option WorkItem) :=
  d.transact .workItem [] shard (Store.next now shard)

/-! ### Settling -/

/-- Describes what is missing together with its shard. -/
def located (shard : Shard) : Error → Error
  | .notFound (.item id) => .notFound (.itemOnShard id shard)
  | .notFound (.head id name) => .notFound (.head id (QueueRef.text ⟨name, shard⟩))
  | e => e

/-- Completes a claimed item. -/
def complete (now : Instant) (id : WorkItemId) (shard : Shard) (d : Durable) :
    Answer Durable Unit :=
  match d.transact .workItem [] shard (Store.complete now id shard) with
  | (.ok (), d) => (.ok (), d)
  | (.error e, d) => (.error (located shard e), d)

/-- Changes the row headed by an item. -/
def settleRow (id : WorkItemId) (shard : Shard) (f : Row → Row) (d : Durable) :
    Answer Durable Unit :=
  d.transact .queue [] shard fun s =>
    s.withLane shard fun lane =>
      if lane.rows.any (·.head = id) then
        (.ok (), s.setLane { lane with
          rows := lane.rows.map fun row => if row.head = id then f row else row })
      else (.error (.notFound (.queueHeadedBy id)), s)

/-- Counts an error and backs the queue off. -/
def fail (now : Instant) (id : WorkItemId) (shard : Shard) : Durable → Answer Durable Unit :=
  settleRow id shard fun row =>
    { row with errorCount := row.errorCount + 1, lockedUntil := now + failureBackoff }

/-- Releases the lease without counting an error. -/
def delay (now : Instant) (id : WorkItemId) (shard : Shard) : Durable → Answer Durable Unit :=
  settleRow id shard fun row => { row with errorCount := 0, lockedUntil := now }

/-! ### Managing queues -/

/-- Puts a lock on a queue that has none. -/
def lock (now : Instant) (queue : QueueRef) (lockId : String) (d : Durable) :
    Answer Durable Unit :=
  match d.transact .queue [queue.name] queue.shard (Store.lock now queue lockId) with
  | (.error e, d) => (.error e, d)
  | (.ok (), after) =>
    if holdsNul lockId then (.error (.database .nulCharacter), d.withNumbersOf after)
    else (.ok (), after)

/-- Releases a lock of a queue. -/
def unlock (queue : QueueRef) (lockId : String) (d : Durable) : Answer Durable Unit :=
  let row := (d.store.lane? queue.shard).bind (·.row? queue.name)
  let texts := if row.isSome then [queue.name, lockId] else [queue.name]
  d.transact .queue texts queue.shard (Store.unlock queue lockId)

/-- What can be seen of a queue; the items that keep it blocked are in the order of their
    numbers. -/
def queueState (queue : QueueRef) (d : Durable) : Except Error (Option QueueState) :=
  d.read .queue [queue.name] fun s =>
    ((s.lane? queue.shard).bind (·.queueState? queue.name)).map fun state =>
      { state with
        blockedBy := state.blockedBy.mergeSort fun a b => a.workItemId ≤ b.workItemId }

/-- The pending items of a queue, oldest first. -/
def pending (queue : QueueRef) (d : Durable) : Except Error (List WorkItem) :=
  d.read .workItem [queue.name] fun s =>
    ((s.lane? queue.shard).map (·.pending queue.name)).getD []

/-! ### Completed items -/

/-- Completed items by the instant of completion, and those of one instant by number. -/
def inOrder (items : List CompletedItem) : List CompletedItem :=
  items.mergeSort fun a b =>
    a.completedAt < b.completedAt ∨ a.completedAt = b.completedAt ∧ a.item.id ≤ b.item.id

/-- The completed items of a shard. -/
def completed (shard : Shard) (d : Durable) : Except Error (List CompletedItem) :=
  d.read .completed [] fun s => inOrder (((s.lane? shard).map (·.completed)).getD [])

/-- Removes one batch of completed items past their retention, the oldest first. -/
def purge (now : Instant) (shard : Shard) (d : Durable) : Answer Durable Nat :=
  d.transact .completed [] shard fun s =>
    (s.updateLane shard fun lane => { lane with completed := inOrder lane.completed }).purge
      now shard

/-- Removes everything; item numbers go on counting. -/
def clear (d : Durable) : Answer Durable Unit :=
  match d.fault? .workItem [] with
  | some e => (.error e, d)
  | none => (.ok (), { d with store := d.store.clear })

end Durable

end Courier
