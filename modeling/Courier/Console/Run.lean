/-
  Courier/Console/Run.lean
  ========================
  **Running a command line.**

  The command line is read first, then the configuration, from the environment and
  the settings file.  Operating on queues needs the durable store; running the
  service works over either store.  The database is what is found behind the
  connection URL; all of its tables are made when a connection is opened.
-/
import Courier.Config
import Courier.Console.Command
import Courier.Console.Service
import Courier.DotEnv
import Courier.Durable.Transaction
import Courier.Store.Backend
import Courier.Telemetry.Setup

namespace Courier.Console

open Courier.Time

/-- What the program finds around it. -/
structure Machine where
  environment : DotEnv.Settings
  /-- The text of the settings file, if there is one. -/
  settingsFile : Option String := none
  files : Cron.Files
  /-- The time zones and the domain names that are known. -/
  registry : Cron.Registry := .builtin
  /-- Why a connection URL leads nowhere, unless it leads to the database. -/
  unreachable? : String → Option DatabaseFault
  now : Instant
  /-- The queue name of an item that names none. -/
  freshName : String
  /-- How long a service runs before it is interrupted. -/
  attention : Span := 0

namespace Machine

/-- All settings. -/
def settings (m : Machine) : DotEnv.Settings :=
  match m.settingsFile with
  | some text => DotEnv.load text m.environment
  | none => m.environment

/-- The value of a setting. -/
def setting (m : Machine) (name : String) : Option String := DotEnv.lookup name m.settings

/-- The configuration. -/
def config (m : Machine) : Except Error Config :=
  Config.ofLookup m.setting m.registry.toAscii

/-- The clocks. -/
def clock (m : Machine) : Clock := { origin := m.now }

/-- Opens the database of the configuration. -/
def connect (m : Machine) (config : Config) (database : Durable) : Except Error Durable :=
  match m.unreachable? (config.databaseUrl.getD "") with
  | some fault => .error (.database fault)
  | none =>
    let sharding := config.databaseOptions.sharding
    .ok { migrated := true, store := { database.store with sharding } }

end Machine

/-! ### Operating on queues -/

section Operate

variable {σ : Type} [Backend σ]

/-- Prints a word if an operation succeeds. -/
def saying (word : String) : Answer σ Unit → Outcome × σ
  | (.ok (), s) => ({ output := word ++ "\n" }, s)
  | (.error e, s) => (.failed e, s)

/-- Purges shards one after the other and counts what is removed. -/
def purgeAll (clock : Clock) : List Shard → σ → Answer σ Nat
  | [], s => (.ok 0, s)
  | shard :: rest, s =>
    match Backend.purge clock shard s with
    | (.error e, s) => (.error e, s)
    | (.ok removed, s) => (purgeAll clock rest s).map (removed + ·)

/-- What is said about the health of the queues. -/
def healthOutcome (asJson : Bool) (health : QueueHealth) : Outcome :=
  { exitCode := if health.healthy then 0 else 1
    output :=
      if asJson then health.toJson.pretty "" ++ "\n"
      else if health.healthy then "healthy\n"
      else s!"unhealthy: {health.unhealthyQueues} queue(s) at the error threshold\n" }

/-- What is shown of a queue. -/
def showQueue (queue : QueueRef) (s : σ) : Outcome :=
  match Backend.queueState queue s with
  | .error e => .failed e
  | .ok state =>
    match Backend.pending queue s with
    | .error e => { Outcome.failed e with output := queueText queue state }
    | .ok items => { output := queueText queue state ++ "---\n" ++ pendingText items }

/-- Carries out a command on queues. -/
def operate (clock : Clock) (freshName : String) (command : QueueCommand) (s : σ) :
    Outcome × σ :=
  let ref (name : String) : QueueRef := .ofName (Backend.sharding s) name
  match command with
  | .enqueue item =>
    match Backend.enqueue clock freshName item s with
    | (.ok (.created id queue), s) => ({ output := s!"Created: {id} in {queue.text}\n" }, s)
    | (.ok (.duplicate id queue), s) =>
      ({ output := s!"Duplicate of {id} in {queue.text}\n" }, s)
    | (.error e, s) => (.failed e, s)
  | .pause queue => saying "Paused" (Backend.pause clock (ref queue) s)
  | .resume queue => saying "Resumed" (Backend.resume (ref queue) s)
  | .reset queue => saying "Reset" (Backend.reset clock (ref queue) s)
  | .lock queue lockId => saying "Locked" (Backend.lock clock (ref queue) lockId s)
  | .unlock queue lockId => saying "Unlocked" (Backend.unlock (ref queue) lockId s)
  | .purge =>
    match purgeAll clock (Backend.sharding s).shards s with
    | (.ok removed, s) => ({ output := s!"Purged {removed} completed item(s)\n" }, s)
    | (.error e, s) => (.failed e, s)
  | .health asJson =>
    match Backend.health s with
    | .ok health => (healthOutcome asJson health, s)
    | .error e => (.failed e, s)
  | .show queue => (showQueue (ref queue) s, s)

end Operate

/-! ### Running the service -/

/-- How the service of a configuration is set up. -/
def serviceSettings (toAscii : Url.DomainToAscii) (config : Config) (jobs : List Cron.Job) :
    ServiceSettings where
  dispatcher := { config := config.dispatch toAscii }
  jobs
  pollInterval := .ofSeconds config.pollIntervalSeconds

/-- How the telemetry of a configuration is set up. -/
def telemetrySetup (config : Config) : Telemetry.Setup :=
  { endpoint := config.telemetryEndpoint, logLevel := config.logLevel }

/-- Runs the service of a configuration: telemetry is set up first, then the jobs are read, then
    the store is opened. -/
def serve (m : Machine) (config : Config) (database : Durable) : Outcome × Durable :=
  let environment := m.setting "RUST_LOG"
  let setup := telemetrySetup config
  let complaints := String.join ((setup.complaints environment).map (· ++ "\n"))
  let failed (e : Error) (log : List String) : Outcome :=
    { Outcome.failed e with errors := complaints ++ (Outcome.failed e).errors, log }
  match setup.install environment false with
  | .error e => (failed e [], database)
  | .ok filter =>
    match config.cronJobs m.files m.registry with
    | .error e => (failed e [], database)
    | .ok jobs =>
      let settings := serviceSettings m.registry.toAscii config jobs
      match config.store with
      | .memory =>
        let (events, _) := runService settings m.clock m.attention (Store.empty config.sharding)
        ({ errors := complaints, log := logLines filter events }, database)
      | .postgres =>
        let url := config.databaseUrl.getD ""
        let connecting := connectingEvent (redactedDatabaseUrl url m.registry.toAscii)
        match m.connect config database with
        | .error e => (failed e (logLines filter [connecting]), database)
        | .ok opened =>
          let (events, database) := runService settings m.clock m.attention opened
          ({ errors := complaints, log := logLines filter (connecting :: events) }, database)

/-! ### Command lines -/

/-- Runs a command. -/
def runCommand (m : Machine) (command : Command) (database : Durable) : Outcome × Durable :=
  match m.config with
  | .error e => (.failed e, database)
  | .ok config =>
    match command with
    | .serve => serve m config database
    | .operate command =>
      if config.store = .memory then
        (.failed (.other "the memory backend only supports \x60serve\x60"), database)
      else
        match m.connect config database with
        | .error e => (.failed e, database)
        | .ok opened => operate m.clock m.freshName command opened

/-- Runs a command line. -/
def run (m : Machine) (words : List String) (database : Durable) : Outcome × Durable :=
  match Request.parse words with
  | none => ({ exitCode := usageExitCode }, database)
  | some (.help page) => ({ output := page }, database)
  | some (.run command) => runCommand m command database

end Courier.Console
