/-
  Courier/Console/Command.lean
  ============================
  **The commands of the program.**

  One command runs the service; the others operate on queues.  A command line is
  read as a command, as a call for help, or not at all.
-/
import Courier.Console.Grammar
import Courier.WorkItem

namespace Courier.Console

/-! ### Commands -/

/-- What operates on queues. -/
inductive QueueCommand where
  | enqueue (item : NewItem)
  | pause (queue : String)
  | resume (queue : String)
  | reset (queue : String)
  | lock (queue lockId : String)
  | unlock (queue lockId : String)
  | purge
  | health (asJson : Bool)
  | show (queue : String)
deriving DecidableEq, Repr

/-- A command. -/
inductive Command where
  | serve
  | operate (command : QueueCommand)
deriving DecidableEq, Repr

/-! ### Forms -/

/-- The argument that names a queue. -/
def queueEntry : Entry := { name := "queue" }

/-- The forms of all commands, in the order in which they are listed. -/
def forms : List Form :=
  [{ name := "serve", about := "Run the consumer and cron loops until interrupted" },
   { name := "enqueue"
     about := "Enqueue a work item"
     arguments := [{ name := "url", about := "URL to GET, absolute or relative to BASE_URL" }]
     options :=
      [{ name := "queue", about := "Queue key (a fresh key when omitted)" },
       { name := "debug-info" },
       { name := "dedup", isFlag := true
         about := "Skip if an unattempted item with the same queue and URL exists" },
       { name := "blocks", about := "Queue kept blocked until this item completes" },
       { name := "lock-when-complete"
         about := "External lock taken on the queue once this item completes" }] },
   { name := "pause", about := "Pause a queue (reserving it if unused)"
     arguments := [queueEntry] },
   { name := "resume", about := "Resume a paused queue", arguments := [queueEntry] },
   { name := "reset", about := "Clear a queue's error count and backoff"
     arguments := [queueEntry] },
   { name := "lock", about := "Take an external lock on a queue"
     arguments := [queueEntry, { name := "lock-id" }] },
   { name := "unlock", about := "Release an external lock"
     arguments := [queueEntry, { name := "lock-id" }] },
   { name := "purge", about := "Purge expired completed items on every shard" },
   { name := "health", about := "Report queue health"
     options := [{ name := "json", isFlag := true }] },
   { name := "queue", about := "Show a queue's state and pending items"
     arguments := [queueEntry] }]

/-- The form of the command that shows help. -/
def helpForm : Form :=
  { name := "help"
    about := "Print this message or the help of the given subcommand(s)" }

/-- The command for what was given to a form. -/
def Form.command? (form : Form) (g : Given) : Option Command :=
  match form.name, g.arguments with
  | "serve", [] => some .serve
  | "enqueue", [url] =>
    some (.operate (.enqueue
      { url
        queue := g.setting? "queue"
        debugInfo := g.setting? "debug-info"
        duplicateProtection := g.hasFlag "dedup"
        blocks := g.setting? "blocks"
        lockWhenComplete := g.setting? "lock-when-complete" }))
  | "pause", [queue] => some (.operate (.pause queue))
  | "resume", [queue] => some (.operate (.resume queue))
  | "reset", [queue] => some (.operate (.reset queue))
  | "lock", [queue, lockId] => some (.operate (.lock queue lockId))
  | "unlock", [queue, lockId] => some (.operate (.unlock queue lockId))
  | "purge", [] => some (.operate .purge)
  | "health", [] => some (.operate (.health (g.hasFlag "json")))
  | "queue", [queue] => some (.operate (.show queue))
  | _, _ => none

/-! ### Command lines -/

/-- What a command line asks for. -/
inductive Request where
  | run (command : Command)
  /-- A page of help. -/
  | help (page : String)
deriving DecidableEq, Repr

/-- The page of help about the program. -/
def overview : String :=
  "Durable HTTP-dispatching work queue\n\nUsage: hookq <COMMAND>\n\nCommands:\n"
    ++ table ((forms ++ [helpForm]).map fun form => (form.name, form.about))
    ++ "\nOptions:\n" ++ table [("-h, --help", "Print help")]

/-- The form of a name. -/
def form? (name : String) : Option Form := forms.find? (·.name = name)

/-- Reads a command line. -/
def Request.parse : List String → Option Request
  | [] => none
  | ["help"] => some (.help overview)
  | "help" :: name :: rest => if rest.isEmpty then (form? name).map (.help ·.help) else none
  | word :: rest =>
    match wordOf word with
    | .option "help" none => some (.help overview)
    | .letters ('h' :: _) => some (.help overview)
    | .plain => do
      let form ← form? word
      match ← form.parse rest with
      | .help => return .help form.help
      | .given g => return .run (← form.command? g)
    | _ => none

end Courier.Console
