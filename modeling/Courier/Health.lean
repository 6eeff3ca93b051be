/-
  Courier/Health.lean
  ===================
  **The health of the service.**

  A report combines the health of every worker with that of the queues.  The
  service is healthy when every worker is and the queues could be looked at and
  are healthy too.
-/
import Courier.Json.Model

namespace Courier

/-- How one worker is. -/
structure WorkerHealth where
  healthy : Bool
  name : String
  state : String
  info : String
deriving DecidableEq, Repr, Inhabited

/-- How the service is. -/
structure HealthReport where
  healthy : Bool
  workers : List WorkerHealth
  /-- Absent when the store could not be asked. -/
  queues : Option QueueHealth
  storeError : Option String
deriving DecidableEq, Repr, Inhabited

namespace HealthReport

/-- Combines the health of the workers with that of the queues, or with the reason why the store
    could not be asked. -/
def aggregate (workers : List WorkerHealth) (queues : Except String QueueHealth) :
    HealthReport :=
  let allHealthy := workers.all (·.healthy)
  match queues with
  | .ok queues => ⟨allHealthy && queues.healthy, workers, some queues, none⟩
  | .error reason => ⟨false, workers, none, some reason⟩

/-- The line about a worker. -/
def workerLine (w : WorkerHealth) : String :=
  let mark := if w.healthy then "ok" else "FAIL"
  s!"  [{mark}] {w.name} ({w.state}): {w.info}\n"

/-- The line about the queues. -/
def queueLine (r : HealthReport) : String :=
  match r.queues, r.storeError with
  | some queues, _ =>
    if queues.healthy then "  [ok] queues\n"
    else s!"  [FAIL] queues: {queues.unhealthyQueues} with error count at threshold\n"
  | none, some reason => s!"  [FAIL] store: {reason}\n"
  | none, none => "  [FAIL] store: unknown\n"

/-- The report for people, a line for each worker and one for the queues. -/
def text (r : HealthReport) : String :=
  (if r.healthy then "healthy\n" else "unhealthy\n")
    ++ String.join (r.workers.map workerLine) ++ r.queueLine

end HealthReport

/-! ### The JSON form -/

def WorkerHealth.toJson (w : WorkerHealth) : Json :=
  .obj [("healthy", .bool w.healthy), ("name", .str w.name), ("state", .str w.state),
    ("info", .str w.info)]

def HealthReport.toJson (r : HealthReport) : Json :=
  .obj [("healthy", .bool r.healthy),
    ("workers", .ofList WorkerHealth.toJson r.workers),
    ("queues", .ofOption QueueHealth.toJson r.queues),
    ("store_error", .ofOption .str r.storeError)]

end Courier
