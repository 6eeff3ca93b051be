/-
  Courier/Backend/Outage.lean
  ===========================
  **A backend with outages.**

  An `Unreliable` backend carries `Faults`: methods that fail with a given
  reason, jobs that are reported inactive, and a table of jobs that is reported
  empty.  A method that fails does nothing else.  Without faults the backend
  answers as the store it is made of.
-/
import Courier.Backend

namespace Courier

/-- A method that can be made to fail. -/
inductive Method where
  | next
  | complete
  | fail
  | delay
  | purge
  | jobRecords
  | beginTransaction
  | health
deriving DecidableEq, Repr

/-- What is wrong with a backend. -/
structure Faults where
  /-- The methods that fail, each with its reason. -/
  failing : List (Method × String) := []
  /-- The names of jobs that are reported inactive. -/
  inactive : List String := []
  /-- Whether the table of jobs is reported empty. -/
  stale : Bool := false
deriving DecidableEq, Repr

namespace Faults

/-- The reason for which a method fails. -/
def reason? (f : Faults) (method : Method) : Option String :=
  (f.failing.find? (·.1 = method)).map (·.2)

/-- Makes a method fail for a reason, or lets it work again. -/
def set (f : Faults) (method : Method) (reason : Option String) : Faults :=
  let others := f.failing.filter (·.1 ≠ method)
  { f with failing := (reason.map (method, ·)).toList ++ others }

/-- Runs a method unless it fails. -/
def guard {α : Type} (f : Faults) (method : Method) (run : Except Error α) : Except Error α :=
  match f.reason? method with
  | some reason => .error (.other reason)
  | none => run

end Faults

/-- A backend together with what is wrong with it. -/
structure Unreliable (σ : Type) where
  store : σ
  faults : Faults := {}

namespace Unreliable

variable {σ α : Type}

/-- Lets the store answer. -/
def pass (u : Unreliable σ) (run : σ → Answer σ α) : Answer (Unreliable σ) α :=
  let (result, store) := run u.store
  (result, { u with store })

/-- Lets the store answer unless the method fails. -/
def attempt (u : Unreliable σ) (method : Method) (run : σ → Answer σ α) :
    Answer (Unreliable σ) α :=
  match u.faults.reason? method with
  | some reason => (.error (.other reason), u)
  | none => u.pass run

/-- The record of a job as it is reported. -/
def report (u : Unreliable σ) (record : JobRecord) : JobRecord :=
  if record.name ∈ u.faults.inactive then { record with active := false } else record

instance [Backend σ] : Backend (Unreliable σ) where
  Transaction := Backend.Transaction σ
  sharding u := Backend.sharding u.store
  enqueue clock freshName item u := u.pass (Backend.enqueue clock freshName item)
  next clock shard u := u.attempt .next (Backend.next clock shard)
  complete clock id shard u := u.attempt .complete (Backend.complete clock id shard)
  fail clock id shard u := u.attempt .fail (Backend.fail clock id shard)
  delay clock id shard u := u.attempt .delay (Backend.delay clock id shard)
  purge clock shard u := u.attempt .purge (Backend.purge clock shard)
  pause clock queue u := u.pass (Backend.pause clock queue)
  resume queue u := u.pass (Backend.resume queue)
  reset clock queue u := u.pass (Backend.reset clock queue)
  lock clock queue lockId u := u.pass (Backend.lock clock queue lockId)
  unlock queue lockId u := u.pass (Backend.unlock queue lockId)
  clear u := u.pass Backend.clear
  queueState queue u := Backend.queueState queue u.store
  pending queue u := Backend.pending queue u.store
  completed shard u := Backend.completed shard u.store
  health u := u.faults.guard .health (Backend.health u.store)
  jobRecords u :=
    u.faults.guard .jobRecords (if u.faults.stale then .ok [] else Backend.jobRecords u.store)
  pendingCount u := Backend.pendingCount u.store
  begin_ u := u.faults.guard .beginTransaction (Backend.begin_ u.store)
  createJob name u tx := Backend.createJob name u.store tx
  selectJob name u tx := (Backend.selectJob name u.store tx).map u.report
  updateJob name at_ u tx := Backend.updateJob name at_ u.store tx
  enqueueJob clock freshName item u tx := Backend.enqueueJob clock freshName item u.store tx
  commit clock tx u := u.pass (Backend.commit clock tx)
  abandon tx u := { u with store := Backend.abandon tx u.store }

end Unreliable

end Courier
