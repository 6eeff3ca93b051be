/-
  Courier/Store/JobTable.lean
  ===========================
  **Transactions on the table of scheduled jobs.**

  A transaction stages changes to job records and items to be filed.  Reads see
  what is staged before what is in the table.  Committing files the items in the
  order they were handed in and then writes the records; a transaction that is
  abandoned leaves nothing.

  While it is open a transaction holds the table of jobs, and no more than that:
  every item is filed in a step of its own, at its own reading of the clock, and
  callers who leave the table alone may come in between two of them.  `commit` is
  what these steps come to when nobody does.
-/
import Courier.Store.Enqueue

namespace Courier

open Courier.Time

/-! ### Records by name -/

namespace JobRecord

/-- The record of a name. -/
def find? (name : String) (records : List JobRecord) : Option JobRecord :=
  records.find? (·.name = name)

/-- Puts a record at its place in a list ordered by name, over one of the same name. -/
def put (record : JobRecord) : List JobRecord → List JobRecord
  | [] => [record]
  | other :: rest =>
    if record.name = other.name then record :: rest
    else if record.name < other.name then record :: other :: rest
    else other :: put record rest

/-- Puts records into a table in order. -/
def putAll (records jobs : List JobRecord) : List JobRecord :=
  records.foldl (fun jobs record => record.put jobs) jobs

end JobRecord

/-! ### Transactions -/

/-- What a transaction has staged. -/
structure JobTransaction where
  records : List JobRecord
  items : List PreparedItem
deriving DecidableEq, Repr, Inhabited

namespace JobTransaction

/-- A transaction that has staged nothing. -/
def start : JobTransaction := ⟨[], []⟩

/-- The record of a name as the transaction sees it. -/
def current? (tx : JobTransaction) (s : Store) (name : String) : Option JobRecord :=
  (JobRecord.find? name tx.records).or (JobRecord.find? name s.jobs)

/-- Stages a record for a job that has none. -/
def create (tx : JobTransaction) (s : Store) (name : String) : JobTransaction :=
  if (tx.current? s name).isSome then tx
  else { tx with records := (JobRecord.neverRan name).put tx.records }

/-- Reads the record of a job. -/
def select (tx : JobTransaction) (s : Store) (name : String) : Except Error JobRecord :=
  match tx.current? s name with
  | some record => .ok record
  | none => .error (.notFound (.cronJob name))

/-- Stages the instant at which a job last ran. -/
def update (tx : JobTransaction) (s : Store) (name : String) (at_ : Instant) :
    Answer JobTransaction Unit :=
  match tx.current? s name with
  | some record => (.ok (), { tx with records := { record with lastRanAt := at_ }.put tx.records })
  | none => (.error (.notFound (.cronJob name)), tx)

/-- Stages an item to be filed. -/
def enqueue (tx : JobTransaction) (s : Store) (freshName : String) (item : NewItem) :
    Answer JobTransaction Unit :=
  match item.prepare s.sharding freshName with
  | .ok p => (.ok (), { tx with items := tx.items ++ [p] })
  | .error e => (.error e, tx)

end JobTransaction

namespace Store

/-- Files prepared items in order, up to the first that fails. -/
def insertAll (now : Instant) : List PreparedItem → Store → Answer Store Unit
  | [], s => (.ok (), s)
  | p :: ps, s =>
    match s.insert now p with
    | (.ok _, s) => insertAll now ps s
    | (.error e, s) => (.error e, s)

/-- Puts records into the table of jobs, in one step. -/
def writeRecords (records : List JobRecord) (s : Store) : Store :=
  { s with jobs := JobRecord.putAll records s.jobs }

/-- Makes the changes of a transaction. -/
def commit (now : Instant) (tx : JobTransaction) (s : Store) : Answer Store Unit :=
  match s.insertAll now tx.items with
  | (.ok (), s) => (.ok (), s.writeRecords tx.records)
  | (.error e, s) => (.error e, s)

end Store

end Courier
