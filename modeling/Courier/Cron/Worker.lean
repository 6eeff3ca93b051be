/-
  Courier/Cron/Worker.lean
  ========================
  **Firing the occurrences that are due.**

  Once a minute every job is judged by the instant at which it last ran.  The
  records are first read outside of any transaction (`lastRun`).  A job that
  looks due is looked at again inside a transaction (`fire`), which files the item
  and moves the record on together, or does neither; so it does not matter how old
  the first reading was.
-/
import Courier.Backend
import Courier.Cron.Job

namespace Courier.Cron

open Courier.Time

/-- How often jobs are judged. -/
def tickInterval : Span := .ofSeconds 60

/-- The instant at which a job last ran, by the records read; the epoch without a record. -/
def lastRun (records : List JobRecord) (job : Job) : Instant :=
  ((records.find? (·.name = job.name)).map (·.lastRanAt)).getD .epoch

namespace Job

/-- The item that is filed for an occurrence. -/
def item (job : Job) (occurrence : Instant) : NewItem where
  url := job.urlFor occurrence
  queue := some job.queue
  debugInfo := some ("cron:" ++ job.name)
  duplicateProtection := true

variable {σ : Type} [Backend σ]

/-- Stages the firing of a job in a transaction.  Answers with nothing if the job turns out not to
    be due or is not active. -/
def stage (job : Job) (clock : Clock) (now : Instant) (s : σ) (tx : Backend.Transaction σ) :
    Answer (Backend.Transaction σ) (Option Instant) :=
  match Backend.createJob job.name s tx with
  | (.error e, tx) => (.error e, tx)
  | (.ok (), tx) =>
    match Backend.selectJob job.name s tx with
    | (.error e, tx) => (.error e, tx)
    | (.ok record, tx) =>
      match job.due? record.lastRanAt now with
      | none => (.ok none, tx)
      | some occurrence =>
        if record.active then
          match Backend.enqueueJob clock job.queue (job.item occurrence) s tx with
          | (.error e, tx) => (.error e, tx)
          | (.ok (), tx) =>
            (Backend.updateJob job.name now s tx).map fun _ => some occurrence
        else (.ok none, tx)

/-- Fires a job if it is due; answers whether it was. -/
def fire (job : Job) (clock : Clock) (now : Instant) (s : σ) : Answer σ Bool :=
  match Backend.begin_ s with
  | .error e => (.error e, s)
  | .ok tx =>
    match job.stage clock now s tx with
    | (.error e, tx) => (.error e, Backend.abandon tx s)
    | (.ok none, tx) => (.ok false, Backend.abandon tx s)
    | (.ok (some _), tx) => (Backend.commit clock tx s).map fun _ => true

end Job

/-! ### A tick -/

variable {σ : Type} [Backend σ]

/-- Fires the jobs that are due by the records read, up to the first failure, and counts those that
    fired. -/
def fireDue (clock : Clock) (now : Instant) (records : List JobRecord) :
    List Job → σ → Answer σ Nat
  | [], s => (.ok 0, s)
  | job :: jobs, s =>
    if (job.due? (lastRun records job) now).isNone then fireDue clock now records jobs s
    else
      match job.fire clock now s with
      | (.error e, s) => (.error e, s)
      | (.ok fired, s) =>
        (fireDue clock now records jobs s).map fun count => if fired then count + 1 else count

/-- Judges every job once. -/
def tick (clock : Clock) (now : Instant) (jobs : List Job) (s : σ) : Answer σ Nat :=
  match Backend.jobRecords s with
  | .error e => (.error e, s)
  | .ok records => fireDue clock now records jobs s

end Courier.Cron
