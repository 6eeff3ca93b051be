/-
  Courier/Main.lean
  =================
  **The program.**

  Gathers what the program finds around it, runs the command line and prints what
  comes of it.  The database is one that lives as long as the process.  The service
  runs until standard input ends.
-/
import Courier.Console.Run
import Courier.Database.Connection
import Courier.Uuid
import Std.Time.DateTime.Timestamp

namespace Courier.Program

open Courier.Console Courier.Time

/-- The names of the settings that the program looks up. -/
def settingNames : List String :=
  ["STORE_BACKEND", "DATABASE_URL", "BASE_URL", "MAX_SHARDS", "POLL_INTERVAL_SECS",
   "SINGLE_DB_CONNECTION", "RETRY_STATUS_CODES", "CRON_CONFIG", "OTEL_ENDPOINT", "LOG_LEVEL",
   "RUST_LOG"]

/-- The settings of the environment. -/
def environment : IO DotEnv.Settings :=
  settingNames.filterMapM fun name => do return (← IO.getEnv name).map (name, ·)

/-- The text of a file, or why it cannot be read. -/
def readText (path : String) : IO (Except Cron.FileFault String) := do
  try
    let bytes ← IO.FS.readBinFile path
    return match String.fromUTF8? bytes with
      | some text => .ok text
      | none => .error .notText
  catch
    | .noFileOrDirectory .. => return .error .absent
    | .inappropriateType .. => return .error .directory
    | fault => return .error (.other (toString fault))

/-- The time of day. -/
def now : IO Instant := do
  return ⟨(← Std.Time.Timestamp.now).toNanosecondsSinceUnixEpoch.val⟩

/-- A queue name that nobody else has. -/
def freshName : IO String := do
  return Uuid.ofRandom (← IO.getRandomBytes 16).toList

/-- The database fault of a connection URL that cannot be read. -/
def urlFault? (url : String) : Option DatabaseFault :=
  match Database.target url Url.asciiDomains with
  | .ok _ => none
  | .error fault => some fault

/-- What the program finds around it. -/
def surroundings : IO Machine := do
  let machine : Machine :=
    { environment := ← environment
      settingsFile := (← readText ".env").toOption
      files := fun _ => .error .absent
      unreachable? := urlFault?
      now := ← now
      freshName := ← freshName }
  match machine.config.toOption.bind Config.cronConfig with
  | none => return machine
  | some path =>
    let found ← readText path
    return { machine with files := fun name => if name = path then found else .error .absent }

/-- Waits until standard input ends. -/
partial def awaitEnd : IO Unit := do
  unless (← (← IO.getStdin).getLine).isEmpty do awaitEnd

/-- The time that passes until standard input ends. -/
def attention : IO Span := do
  let begun ← IO.monoNanosNow
  awaitEnd
  return ⟨(← IO.monoNanosNow) - begun⟩

/-- Prints what shows of a run. -/
def report (outcome : Console.Outcome) : IO UInt32 := do
  IO.print outcome.output
  IO.eprint outcome.errors
  for line in outcome.log do IO.eprintln line
  return outcome.exitCode.toUInt32

end Courier.Program

open Courier Courier.Program

/-- Runs the command line.  The service is set up once without running, so that a fault in its
    configuration shows at once. -/
def main (words : List String) : IO UInt32 := do
  let machine ← surroundings
  let options : Database.Options := {}
  let database := Durable.empty options.sharding
  let (outcome, _) := Console.run machine words database
  if Console.Request.parse words = some (.run .serve) ∧ outcome.exitCode = 0 then
    let machine := { machine with attention := ← attention }
    report (Console.run machine words database).1
  else
    report outcome
