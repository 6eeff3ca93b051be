/-
  Courier/Console/Service.lean
  ============================
  **Running the service, and what it logs.**

  The service logs when its loops start and stop and when an execution fails.
-/
import Courier.Console.Report
import Courier.Supervisor

namespace Courier.Console

open Courier.Time Courier.Poll

/-- The target of the program's own events. -/
def programTarget : String := "hookq"

/-- The target of the loops' events. -/
def loopTarget : String := "hookq::engine::poll"

/-- The target of the supervisor's events. -/
def supervisorTarget : String := "hookq::engine::supervisor"

variable {σ : Type} [Backend σ]

/-- The event that connecting to a database begins; the URL is shown without its password. -/
def connectingEvent (shownUrl : String) : LogEvent :=
  ⟨.info, programTarget, s!"connecting database={shownUrl}"⟩

/-- The events of a service that starts. -/
def startEvents (s : Supervisor σ) : List LogEvent :=
  let hasCron := !s.settings.jobs.isEmpty
  ⟨.info, supervisorTarget,
      s!"supervisor started consumers={s.fleet.world.consumers.length} cron={hasCron}"⟩
    :: s.fleet.loops.map fun l =>
      ⟨.info, loopTarget, s!"poll loop started worker={l.settings.name}"⟩

/-- The events of the loops whose last execution failed. -/
def failureEvents (s : Supervisor σ) : List LogEvent :=
  s.fleet.loops.filterMap fun l =>
    l.status.lastError.map fun error =>
      ⟨.error, loopTarget, s!"poll execution failed worker={l.settings.name} error={error} "
        ++ s!"cooldown_secs={l.settings.cooldown.seconds}"⟩

/-- The events of a service that is interrupted. -/
def stopEvents (s : Supervisor σ) : List LogEvent :=
  ⟨.info, programTarget, "interrupt received, shutting down"⟩
    :: s.fleet.loops.map (fun l =>
      ⟨.info, loopTarget, s!"poll loop stopped worker={l.settings.name}"⟩)
    ++ [⟨.info, supervisorTarget, "supervisor stopped"⟩]

/-- Runs a service for a span of time and then interrupts it. -/
def runService (settings : ServiceSettings) (clock : Clock) (span : Span) (store : σ) :
    List LogEvent × σ :=
  let running := ((Supervisor.create settings clock store).start).pass span
  let ended := running.shutdown
  (startEvents running ++ failureEvents running ++ stopEvents ended, ended.store)

end Courier.Console
