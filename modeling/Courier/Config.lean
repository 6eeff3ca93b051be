/-
  Courier/Config.lean
  ===================
  **The configuration of the service.**

  Settings are looked up by name.  A setting that is blank counts as absent, and
  the first setting that is missing or malformed is reported, in the order in
  which `Config.ofLookup` takes them.
-/
import Courier.Cron.Table
import Courier.Database.Connection
import Courier.Dispatch

namespace Courier

open Courier.Text

/-! ### Single settings -/

/-- Where the items are kept. -/
inductive StoreKind where
  | postgres
  | memory
deriving DecidableEq, Repr, Inhabited

namespace StoreKind

/-- The word for a kind of store. -/
def name : StoreKind → String
  | .postgres => "postgres"
  | .memory => "memory"

/-- Reads the word for a kind of store. -/
def parse (text : String) : Except Error StoreKind :=
  let word := lowercased (trimmed text)
  if word = "postgres" ∨ word = "postgresql" then .ok .postgres
  else if word = "memory" then .ok .memory
  else .error (.config s!"STORE_BACKEND must be postgres or memory, got {word}")

end StoreKind

namespace Setting

/-- Reads a setting, which has a value of its own when it is absent. -/
def read {α : Type} (setting : Option String) (parse : String → Except Error α) (absent : α) :
    Except Error α :=
  match setting with
  | some value => parse value
  | none => .ok absent

/-- Reads an integer of a range, with blanks around it. -/
def integer (range : IntegerRange) (name value : String) : Except Error Int :=
  match readInteger range (trim value.toList) with
  | .ok n => .ok n
  | .error fault => .error (.config s!"{name}={value} is invalid: {fault.message}")

/-- Reads a word for yes or no, with blanks around it. -/
def boolean (name value : String) : Except Error Bool :=
  let word := lowercased (trimmed value)
  if ["1", "true", "yes", "on"].contains word then .ok true
  else if ["0", "false", "no", "off"].contains word then .ok false
  else .error (.config s!"{name}={value} is not a boolean")

/-- Reads one status code. -/
def statusCode (text : String) : Except Error Nat := do
  let code ← integer (.unsigned 16) "RETRY_STATUS_CODES" text
  if 100 ≤ code ∧ code ≤ 599 then return code.toNat
  else .error (.config s!"RETRY_STATUS_CODES entry {code} is not an http status")

/-- Puts a number at its place in an ascending list that holds nothing twice. -/
def insertAscending (n : Nat) : List Nat → List Nat
  | [] => [n]
  | m :: rest =>
    if n < m then n :: m :: rest else if n = m then m :: rest else m :: insertAscending n rest

/-- Numbers in ascending order, each once. -/
def ascending (ns : List Nat) : List Nat := ns.foldr insertAscending []

/-- Reads the URL that relative URLs are joined onto. -/
def baseUrl (toAscii : Url.DomainToAscii) (value : String) : Except Error (Option Url) :=
  match Url.parse value toAscii with
  | .ok url => .ok (some url)
  | .error fault => .error (.config s!"BASE_URL {value} is invalid: {fault.message}")

/-- Reads status codes with commas between them; blank pieces do not count. -/
def statusCodes (value : String) : Except Error (List Nat) := do
  let pieces := (splitAt ',' value.toList).map trim
  let codes ← (pieces.filter (!·.isEmpty)).mapM fun piece => statusCode (String.ofList piece)
  return ascending codes

end Setting

/-! ### The whole configuration -/

/-- How the service is set up. -/
structure Config where
  store : StoreKind
  /-- Required by the database store. -/
  databaseUrl : Option String
  baseUrl : Option Url
  sharding : Sharding
  pollIntervalSeconds : Nat
  singleConnection : Bool
  /-- The statuses that delay an item, in ascending order. -/
  retryStatusCodes : List Nat
  cronConfig : Option String
  telemetryEndpoint : Option String
  logLevel : String
deriving DecidableEq

/-- The seconds that an idle consumer sleeps unless configured otherwise. -/
def defaultPollSeconds : Nat := 10

namespace Config

/-- The database store needs a database. -/
def requireDatabase (store : StoreKind) (databaseUrl : Option String) : Except Error Unit :=
  if store = .postgres ∧ databaseUrl.isNone then
    .error (.config "required environment variable DATABASE_URL is not set")
  else .ok ()

/-- Reads the configuration from named settings. -/
def ofLookup (lookup : String → Option String) (toAscii : Url.DomainToAscii := Url.asciiDomains) :
    Except Error Config := do
  let setting (name : String) : Option String :=
    (lookup name).filter fun value => !(trim value.toList).isEmpty
  let store ← Setting.read (setting "STORE_BACKEND") StoreKind.parse .postgres
  let databaseUrl := setting "DATABASE_URL"
  requireDatabase store databaseUrl
  let baseUrl ← Setting.read (setting "BASE_URL") (Setting.baseUrl toAscii) none
  let shardCount ← Setting.read (setting "MAX_SHARDS")
    (Setting.integer (.signed 16) "MAX_SHARDS") 1
  let sharding ← Sharding.ofCount shardCount
  let pollSeconds ← Setting.read (setting "POLL_INTERVAL_SECS")
    (Setting.integer (.unsigned 64) "POLL_INTERVAL_SECS") defaultPollSeconds
  let singleConnection ← Setting.read (setting "SINGLE_DB_CONNECTION")
    (Setting.boolean "SINGLE_DB_CONNECTION") false
  let retryStatusCodes ← Setting.read (setting "RETRY_STATUS_CODES") Setting.statusCodes
    defaultRetryStatusCodes
  return {
    store
    databaseUrl
    baseUrl
    sharding
    pollIntervalSeconds := pollSeconds.toNat
    singleConnection
    retryStatusCodes
    cronConfig := setting "CRON_CONFIG"
    telemetryEndpoint := setting "OTEL_ENDPOINT"
    logLevel := (setting "LOG_LEVEL").getD "info" }

/-- How items are requested. -/
def dispatch (config : Config) (toAscii : Url.DomainToAscii) : DispatchConfig :=
  { baseUrl := config.baseUrl, retryStatusCodes := config.retryStatusCodes, toAscii }

/-- How the database is used. -/
def databaseOptions (config : Config) : Database.Options :=
  { sharding := config.sharding, singleConnection := config.singleConnection }

/-- The validated jobs of the configured file; none without one. -/
def cronJobs (files : Cron.Files) (config : Config) (registry : Cron.Registry := .builtin) :
    Except Error (List Cron.Job) :=
  match config.cronConfig with
  | some path => Cron.Job.ofFile files path registry
  | none => .ok []

end Config

/-! ### Secrets -/

/-- A database URL that may be logged: its password is masked. -/
def redactedDatabaseUrl (url : String) (toAscii : Url.DomainToAscii := Url.asciiDomains) :
    String :=
  match Url.parse url toAscii with
  | .ok parsed => (parsed.withPassword "***").text
  | .error _ => "<unparsable database url>"

end Courier
