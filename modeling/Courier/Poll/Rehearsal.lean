/-
  Courier/Poll/Rehearsal.lean
  ===========================
  **A loop with a scripted worker.**

  The executions of a scripted worker are given in advance, each with its length
  and its result; once the script is exhausted the worker finds nothing to do, at
  once.  Every execution is logged with its beginning and its end.
-/
import Courier.Poll.Fleet

namespace Courier.Poll

open Courier.Time

/-- An execution that is given in advance. -/
structure ScriptEntry where
  takes : Span
  result : Except Error Bool

/-- The beginning or the end of an execution. -/
inductive Mark where
  | start
  | stop
deriving DecidableEq, Repr

/-- A script, with the log of its executions. -/
structure Rehearsal where
  script : List ScriptEntry
  /-- What has happened or, while an execution is in flight, will happen, with its uptime. -/
  log : List (Span × Mark) := []

namespace Rehearsal

/-- An execution that finds nothing to do. -/
def idleEntry : ScriptEntry := ⟨0, .ok false⟩

/-- The scripted worker. -/
def workers : Workers Rehearsal := fun _ clock world =>
  let entry := world.script.headD idleEntry
  ({ result := entry.result, takes := entry.takes },
    { script := world.script.tail
      log := world.log ++ [(clock.uptime, .start), (clock.uptime + entry.takes, .stop)] })

/-- Takes what has happened so far out of the log, in the order of time. -/
def takeLog (world : Rehearsal) (uptime : Span) : List (Span × Mark) × Rehearsal :=
  let (past, future) := world.log.partition fun entry => entry.1 ≤ uptime
  (past.mergeSort fun a b => a.1 ≤ b.1, { world with log := future })

end Rehearsal

end Courier.Poll
