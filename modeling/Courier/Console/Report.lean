/-
  Courier/Console/Report.lean
  ===========================
  **What the program prints.**

  An `Outcome` is all that shows of a run: what is printed, the log, and the exit
  code.  A failure is printed with the texts it wraps, numbered if there are
  several.
-/
import Courier.Error
import Courier.Queue
import Courier.Telemetry.Filter
import Courier.Text.Integer
import Courier.Time.Rfc3339

namespace Courier.Console

open Courier.Time

/-! ### Outcomes -/

/-- What shows of a run. -/
structure Outcome where
  exitCode : Nat := 0
  output : String := ""
  errors : String := ""
  /-- The lines of the log, for a run that keeps one. -/
  log : List String := []
deriving DecidableEq, Repr

/-- The exit code for a command line that cannot be read. -/
def usageExitCode : Nat := 2

/-- The texts that a cause of failure wraps, outermost first. -/
def wrapped : Error → List String
  | .database fault => fault.chain
  | _ => []

/-- A failure for people. -/
def failureText (message : String) (causes : List String) : String :=
  let lines := match causes with
    | [] => ""
    | [cause] => s!"\n\nCaused by:\n    {cause}"
    | causes => "\n\nCaused by:"
        ++ String.join (causes.zipIdx.map fun (numbered : String × Nat) =>
          s!"\n    {numbered.2}: {numbered.1}")
  s!"Error: {message}{lines}\n"

/-- The outcome of a run that failed. -/
def Outcome.failed (e : Error) : Outcome :=
  { exitCode := 1, errors := failureText e.message (wrapped e) }

/-! ### The log -/

/-- An event that may be logged. -/
structure LogEvent where
  level : Telemetry.Level
  target : String
  text : String
deriving DecidableEq, Repr

/-- The line about an event. -/
def LogEvent.line (e : LogEvent) : String := s!"{e.level.name.toUpper} {e.target}: {e.text}"

/-- The lines about the events that a filter shows. -/
def logLines (filter : Telemetry.Filter) (events : List LogEvent) : List String :=
  (events.filter fun e => filter.enables e.target e.level).map LogEvent.line

/-! ### Queues -/

/-- A text with blanks behind it up to a width. -/
def padRight (width : Nat) (text : String) : String :=
  text ++ String.ofList (List.replicate (width - text.length) ' ')

/-- What can be seen of a queue. -/
def queueText (queue : QueueRef) : Option QueueState → String
  | none => s!"Queue {queue.text} has no row\n"
  | some state =>
    let lock := state.externalLock.getD "-"
    let lines :=
      [s!"Queue:      {queue.text}",
       s!"Head:       {state.head}",
       s!"Errors:     {state.errorCount}",
       s!"Locked:     {state.lockedUntil.toReadableText}",
       s!"Paused:     {state.isPaused}",
       s!"Lock:       {lock}",
       s!"Blocked by: {state.blockedBy.length}"]
    String.join (lines.map (· ++ "\n"))

/-- The line about a pending item. -/
def itemText (item : WorkItem) : String :=
  let url := if item.isPlaceholder then "<placeholder>" else item.url
  s!"{item.id}  {padRight 24 item.createdAt.toPlainText}  {url}\n"

/-- The pending items of a queue. -/
def pendingText (items : List WorkItem) : String :=
  String.join (items.map itemText) ++ s!"{items.length} pending item(s)\n"

end Courier.Console
