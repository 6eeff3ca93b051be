/-
  Courier/Error.lean
  ==================
  **Everything that can go wrong, as causes.**

  An operation that fails answers with an `Error`.  Its constructors are the
  causes, with the data that describe each; the wording is in one place,
  `Error.message`, and the family a cause belongs to in another, `Error.kind`.
-/
import Courier.Shard
import Courier.Text.Quoted

namespace Courier

/-! ### Causes -/

/-- What could not be found. -/
inductive Missing where
  | shard (shard : Shard)
  /-- No pending item has this number. -/
  | item (id : Int)
  /-- No pending item of this shard has this number. -/
  | itemOnShard (id : Int) (shard : Shard)
  /-- The item is not the one its queue would hand out next. -/
  | head (id : Int) (queue : String)
  /-- No queue of the shard has this head. -/
  | queueHeadedBy (id : Int)
  /-- A queue whose head is gone. -/
  | headOf (id : Int) (queue : String)
  | queue (queue : String)
  | cronJob (name : String)
  | consumer (shard : Shard)
deriving DecidableEq, Repr

/-- The wording of what is missing. -/
def Missing.message : Missing → String
  | .shard s => s!"shard {s.text}"
  | .item id => s!"work item {id}"
  | .itemOnShard id s => s!"work item {id} on shard {s.text}"
  | .head id name => s!"work item {id} is not the head of queue {name}"
  | .queueHeadedBy id => s!"queue headed by work item {id}"
  | .headOf id name => s!"head {id} of queue {name}"
  | .queue name => s!"queue {name}"
  | .cronJob name => s!"cron job {name}"
  | .consumer s => s!"no consumer for shard {s.text}"

/-- Why the database refused. -/
inductive DatabaseFault where
  /-- The connection settings cannot be used. -/
  | configuration (reason : String)
  /-- A connection setting is none of the words it may be. -/
  | unknownWord (word setting : String)
  /-- The server cannot be reached. -/
  | unreachable (reason : String)
  /-- A table has not been made yet. -/
  | noTable (table : String)
  /-- A text holds the character NUL, which the database cannot store. -/
  | nulCharacter
  /-- An earlier statement of the transaction failed. -/
  | aborted
deriving DecidableEq, Repr

/-- The texts of a fault and of what it wraps, outermost first. -/
def DatabaseFault.chain : DatabaseFault → List String
  | .configuration reason => [s!"error with configuration: {reason}", reason]
  | .unknownWord word setting =>
    let reason := s!"unknown value {Text.quotedWord word} for \x60{setting}\x60"
    [s!"error with configuration: error with configuration: {reason}",
     s!"error with configuration: {reason}", reason]
  | .unreachable reason => [s!"error communicating with database: {reason}", reason]
  | .noTable table =>
    let reason := s!"relation \"{table}\" does not exist"
    [s!"error returned from database: {reason}", reason]
  | .nulCharacter =>
    let reason := "invalid byte sequence for encoding \"UTF8\": 0x00"
    [s!"error returned from database: {reason}", reason]
  | .aborted =>
    let reason :=
      "current transaction is aborted, commands ignored until end of transaction block"
    [s!"error returned from database: {reason}", reason]

/-- The wording of a database fault. -/
def DatabaseFault.message (fault : DatabaseFault) : String := fault.chain.headD ""

/-- The causes of failure. -/
inductive Error where
  | notFound (missing : Missing)
  /-- A work item would block the queue it belongs to. -/
  | selfBlock (queue : String)
  /-- A work item without an address. -/
  | emptyUrl
  /-- An item was completed while its queue was blocked. -/
  | completedWhileBlocked (queue : String) (id : Int)
  /-- An item would put its deferred lock on a queue that holds another one. -/
  | lockConflict (queue held requested : String)
  /-- A lock was asked for on a queue that holds one. -/
  | alreadyLocked (queue lock : String)
  /-- A setting is missing or malformed. -/
  | config (reason : String)
  /-- A scheduled job is malformed. -/
  | cron (reason : String)
  | database (fault : DatabaseFault)
  /-- A work item's address cannot be resolved. -/
  | invalidUrl (url reason : String)
  | other (reason : String)
deriving DecidableEq, Repr

/-- The family a cause belongs to. -/
inductive ErrorKind where
  | notFound
  | invalidBlockConfig
  | blockedItemCompleted
  | lockConflict
  | alreadyLocked
  | config
  | cron
  | database
  | other
deriving DecidableEq, Repr

/-- The name of a family. -/
def ErrorKind.name : ErrorKind → String
  | .notFound => "NotFound"
  | .invalidBlockConfig => "InvalidBlockConfig"
  | .blockedItemCompleted => "BlockedItemCompleted"
  | .lockConflict => "LockConflict"
  | .alreadyLocked => "AlreadyLocked"
  | .config => "Config"
  | .cron => "Cron"
  | .database => "Database"
  | .other => "Other"

namespace Error

/-- The family of a cause. -/
def kind : Error → ErrorKind
  | .notFound _ => .notFound
  | .selfBlock _ => .invalidBlockConfig
  | .emptyUrl => .other
  | .completedWhileBlocked _ _ => .blockedItemCompleted
  | .lockConflict _ _ _ => .lockConflict
  | .alreadyLocked _ _ => .alreadyLocked
  | .config _ => .config
  | .cron _ => .cron
  | .database _ => .database
  | .invalidUrl _ _ => .other
  | .other _ => .other

/-- The wording of a cause. -/
def message : Error → String
  | .notFound missing => "not found: " ++ missing.message
  | .selfBlock queue => s!"invalid block configuration: queue {queue} cannot block itself"
  | .emptyUrl => "work item url must not be empty"
  | .completedWhileBlocked queue id => s!"work item {id} in queue {queue} completed while blocked"
  | .lockConflict queue held requested =>
    s!"queue {queue} already holds lock {held}, cannot apply {requested}"
  | .alreadyLocked queue lock => s!"queue {queue} is already locked by {lock}"
  | .config reason => "configuration error: " ++ reason
  | .cron reason => "cron error: " ++ reason
  | .database fault => "database error: " ++ fault.message
  | .invalidUrl url reason => s!"invalid url {url}: {reason}"
  | .other reason => reason

end Error

/-- The sharding of a number of shards, or the reason why there is none. -/
def Sharding.ofCount (count : Int) : Except Error Sharding :=
  match Sharding.ofCount? count with
  | some sharding => .ok sharding
  | none => .error (.config s!"max shards must be between 1 and {greatestShardCount}, got {count}")

end Courier
