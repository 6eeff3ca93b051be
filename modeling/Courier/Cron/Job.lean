/-
  Courier/Cron/Job.lean
  =====================
  **Scheduled jobs and their validation.**

  A job enqueues a URL on a schedule.  Every `{0}` in the URL stands for the
  occurrence it is enqueued for.  Jobs are validated once, before anything runs:
  names must be unique, the URL must be an absolute `http` or `https` URL, and the
  schedule and the time zone must exist.  The first fault found is reported, in
  this order.  Time zones and domain names are looked up in a `Registry`, which is a
  parameter.
-/
import Courier.Cron.Grammar
import Courier.Error
import Courier.Json
import Courier.Url.Parser

namespace Courier.Cron

open Courier.Text Courier.Time

/-! ### Jobs as they are written down -/

/-- A job as its author describes it. -/
structure JobConfig where
  name : String
  url : String
  schedule : String
  /-- The queue of the items; the name of the job when absent. -/
  queue : Option String := none
  /-- The time zone of the schedule; universal time when absent. -/
  timezone : Option String := none
deriving DecidableEq, Repr, Inhabited

namespace JobConfig

/-- The members of a job: those of an object, or the items of an array, of which the last two may
    be left out. -/
def members? : Json → Option (List Json)
  | .arr items =>
    if items.length < 3 then none
    else some (items ++ List.replicate (5 - items.length) .null)
  | j => j.members? ["name", "url", "schedule", "queue", "timezone"]

/-- Reads a job. -/
def ofJson? (j : Json) : Option JobConfig := do
  let [name, url, schedule, queue, timezone] ← members? j | none
  return {
    name := ← name.str?
    url := ← url.str?
    schedule := ← schedule.str?
    queue := ← queue.option? Json.str?
    timezone := ← timezone.option? Json.str? }

end JobConfig

/-! ### Validated jobs -/

/-- What jobs are checked against. -/
structure Registry where
  /-- The time zone of a name. -/
  zone? : String → Option Zone
  /-- How domain names are mapped to ASCII. -/
  toAscii : Url.DomainToAscii

/-- The registry of the zones at hand and of the domain names in ASCII. -/
def Registry.builtin : Registry := ⟨Zone.ofName?, Url.asciiDomains⟩

/-- A validated job. -/
structure Job where
  name : String
  url : String
  queue : String
  schedule : Schedule
  zone : Zone
deriving DecidableEq, Repr

namespace Job

/-- Validates a job. -/
def ofConfig (config : JobConfig) (registry : Registry := .builtin) : Except Error Job := do
  let fault (reason : String) : Error := .cron s!"job {config.name}: {reason}"
  let url ← match Url.parse config.url registry.toAscii with
    | .ok url => .ok url
    | .error e => .error (fault s!"invalid url {config.url}: {e.message}")
  if url.isHttp then .ok ()
  else .error (fault s!"url must be http or https, got {config.url}")
  let schedule ← match Schedule.parse? config.schedule with
    | some schedule => .ok schedule
    | none => .error (fault s!"invalid cron expression '{config.schedule}'")
  let zone ← match config.timezone with
    | none => .ok .utc
    | some raw =>
      match registry.zone? (trimmed raw) with
      | some zone => .ok zone
      | none => .error (fault s!"invalid timezone {raw}: failed to parse timezone")
  return {
    name := config.name
    url := config.url
    queue := config.queue.getD config.name
    schedule
    zone }

/-- Validates jobs, whose names must be unique. -/
def ofConfigs (configs : List JobConfig) (registry : Registry := .builtin) :
    Except Error (List Job) :=
  go [] configs
where
  /-- `seen` are the names so far. -/
  go (seen : List String) : List JobConfig → Except Error (List Job)
    | [] => .ok []
    | config :: rest =>
      if config.name ∈ seen then .error (.cron s!"duplicate cron job name {config.name}")
      else do
        let job ← ofConfig config registry
        return job :: (← go (config.name :: seen) rest)

/-- The occurrence that follows an instant. -/
def nextOccurrence (job : Job) (last : Instant) : Option Instant := job.schedule.next job.zone last

/-- What the occurrence replaces in the URL of a job. -/
def occurrenceMark : List Char := ['\x7b', '0', '\x7d']

/-- The URL enqueued for an occurrence. -/
def urlFor (job : Job) (occurrence : Instant) : String :=
  String.ofList (replace occurrenceMark occurrence.toSecondsText.toList job.url.toList)

/-- The occurrence that is due, if the one that follows the last run is past. -/
def due? (job : Job) (lastRanAt now : Instant) : Option Instant :=
  (job.nextOccurrence lastRanAt).filter (· < now)

end Job

end Courier.Cron
