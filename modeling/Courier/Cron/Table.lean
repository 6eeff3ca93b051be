/-
  Courier/Cron/Table.lean
  =======================
  **The file of scheduled jobs.**

  Jobs are listed in a TOML document under the key `cron`, as tables or as arrays
  of their members in order.  Other keys are ignored.  A document that cannot be
  read, or does not hold such a list, is a fault of the configuration.
-/
import Courier.Cron.Job
import Courier.Toml.Document

namespace Courier.Cron

/-! ### Reading the document -/

namespace JobConfig

/-- A member that must be a text. -/
def required? (member : Option Toml) : Option String := member.bind Toml.str?

/-- A member that may be absent, but is a text if it is there. -/
def optional? : Option Toml → Option (Option String)
  | none => some none
  | some value => value.str?.map some

/-- Reads a job from its members. -/
def ofMembers? (name url schedule queue timezone : Option Toml) : Option JobConfig := do
  return {
    name := ← required? name
    url := ← required? url
    schedule := ← required? schedule
    queue := ← optional? queue
    timezone := ← optional? timezone }

/-- Reads a job from a table, or from an array of which further items are ignored. -/
def ofToml? : Toml → Option JobConfig
  | .table _ entries =>
    let member (key : String) := Toml.lookup key entries
    ofMembers? (member "name") (member "url") (member "schedule") (member "queue")
      (member "timezone")
  | .array items => ofMembers? items[0]? items[1]? items[2]? items[3]? items[4]?
  | _ => none

/-- Reads all jobs of a document. -/
def listOfToml? (document : Toml.Entries) : Option (List JobConfig) :=
  match Toml.lookup "cron" document with
  | none => some []
  | some (.array items) | some (.tables items) => items.mapM ofToml?
  | some _ => none

end JobConfig

namespace Job

/-- Reads and validates the jobs of a TOML document. -/
def ofText (text : String) (registry : Registry := .builtin) : Except Error (List Job) :=
  match (Toml.parse? text).bind JobConfig.listOfToml? with
  | some configs => ofConfigs configs registry
  | none => .error (.config "invalid cron config")

end Job

/-! ### Finding the document -/

/-- Why a file cannot be read. -/
inductive FileFault where
  | absent
  | directory
  | notText
  | other (reason : String)
deriving DecidableEq, Repr

/-- The wording of a file fault. -/
def FileFault.message : FileFault → String
  | .absent => "No such file or directory (os error 2)"
  | .directory => "Is a directory (os error 21)"
  | .notText => "stream did not contain valid UTF-8"
  | .other reason => reason

/-- What the files of a machine hold. -/
abbrev Files := String → Except FileFault String

/-- Reads and validates the jobs of a file. -/
def Job.ofFile (files : Files) (path : String) (registry : Registry := .builtin) :
    Except Error (List Job) :=
  match files path with
  | .ok text => Job.ofText text registry
  | .error fault => .error (.config s!"cannot read cron config {path}: {fault.message}")

end Courier.Cron
