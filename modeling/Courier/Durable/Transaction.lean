/-
  Courier/Durable/Transaction.lean
  ================================
  **Transactions of the durable store.**

  A transaction works on a state of its own, which takes the place of the store's
  when it is committed.  A statement that fails aborts it: every statement after
  that is refused, and committing then changes nothing.  Item numbers that the
  transaction used up stay used.
-/
import Courier.Durable.Basic

namespace Courier

open Courier.Time

/-- A transaction of the durable store. -/
structure DurableTransaction where
  /-- The state it works on. -/
  work : Durable
  /-- Whether a statement has failed. -/
  aborted : Bool := false

namespace DurableTransaction

/-- Runs a statement. -/
def statement {α : Type} (tx : DurableTransaction) (run : Durable → Answer Durable α) :
    Answer DurableTransaction α :=
  if tx.aborted then (.error (.database .aborted), tx)
  else
    match run tx.work with
    | (.ok a, work) => (.ok a, { tx with work })
    | (.error (.database e), work) => (.error (.database e), { work, aborted := true })
    | (.error e, work) => (.error e, { tx with work })

/-- Runs a statement on the table of scheduled jobs. -/
def jobStatement {α : Type} (tx : DurableTransaction) (name : String)
    (run : List JobRecord → Except Error α × List JobRecord) : Answer DurableTransaction α :=
  tx.statement fun d =>
    match d.fault? .cronJob [name] with
    | some e => (.error e, d)
    | none =>
      let (result, jobs) := run d.store.jobs
      (result, { d with store := { d.store with jobs } })

/-- Makes a record for a job that has none. -/
def createJob (name : String) (tx : DurableTransaction) : Answer DurableTransaction Unit :=
  tx.jobStatement name fun jobs =>
    (.ok (), if (JobRecord.find? name jobs).isSome then jobs else (JobRecord.neverRan name).put jobs)

/-- Reads the record of a job. -/
def selectJob (name : String) (tx : DurableTransaction) : Answer DurableTransaction JobRecord :=
  tx.jobStatement name fun jobs =>
    match JobRecord.find? name jobs with
    | some record => (.ok record, jobs)
    | none => (.error (.notFound (.cronJob name)), jobs)

/-- Changes the instant at which a job last ran; a job without a record is left alone. -/
def updateJob (name : String) (at_ : Instant) (tx : DurableTransaction) :
    Answer DurableTransaction Unit :=
  tx.jobStatement name fun jobs =>
    (.ok (), jobs.map fun record =>
      if record.name = name then { record with lastRanAt := at_.storedPrecision } else record)

/-- Files an item. -/
def enqueue (now : Instant) (freshName : String) (item : NewItem) (tx : DurableTransaction) :
    Answer DurableTransaction Unit :=
  match item.prepare tx.work.store.sharding freshName with
  | .error e => (.error e, tx)
  | .ok p => tx.statement fun d => (d.insert now p).map fun _ => ()

/-- Drops the changes of the transaction. -/
def abandon (tx : DurableTransaction) (d : Durable) : Durable := d.withNumbersOf tx.work

/-- Makes the changes of the transaction, unless it was aborted. -/
def commit (tx : DurableTransaction) (d : Durable) : Durable :=
  if tx.aborted then tx.abandon d else tx.work

end DurableTransaction

/-! ### The durable store as a backend -/

/-- The instant that the durable store goes by. -/
def Durable.now (clock : Clock) : Instant := clock.now.storedPrecision

instance : Backend Durable where
  Transaction := DurableTransaction
  sharding d := d.store.sharding
  enqueue clock := Durable.enqueue (Durable.now clock)
  next clock := Durable.next (Durable.now clock)
  complete clock := Durable.complete (Durable.now clock)
  fail clock := Durable.fail (Durable.now clock)
  delay clock := Durable.delay (Durable.now clock)
  purge clock := Durable.purge (Durable.now clock)
  pause clock queue d :=
    d.transact .queue [queue.name] queue.shard (Store.pause (Durable.now clock) queue)
  resume queue d := d.transact .queue [queue.name] queue.shard (Store.resume queue)
  reset clock queue d :=
    d.transact .queue [queue.name] queue.shard (Store.reset (Durable.now clock) queue)
  lock clock := Durable.lock (Durable.now clock)
  unlock := Durable.unlock
  clear := Durable.clear
  queueState := Durable.queueState
  pending := Durable.pending
  completed := Durable.completed
  health d := d.read .queue [] Store.health
  jobRecords d := d.read .cronJob [] (·.jobs)
  pendingCount d := d.store.pendingCount
  begin_ d := .ok { work := d }
  createJob name _ tx := tx.createJob name
  selectJob name _ tx := tx.selectJob name
  updateJob name at_ _ tx := tx.updateJob name at_
  enqueueJob clock freshName item _ tx := tx.enqueue (Durable.now clock) freshName item
  commit _ tx d := (.ok (), tx.commit d)
  abandon tx d := tx.abandon d

end Courier
