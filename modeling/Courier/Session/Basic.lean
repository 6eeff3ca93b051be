/-
  Courier/Session/Basic.lean
  ==========================
  **Sessions with a service on a timeline of their own.**

  A session holds a service over an unreliable store and what the conversation
  has brought up so far: the item claimed last, an open transaction, consumers of
  its own.  Commands that operate the store reach it past its faults; the workers
  do not.  While a transaction is open, commands that would have to wait for its
  end are refused: over an in-process store those on the table of jobs, over a
  database all others.
-/
import Courier.Config
import Courier.Session.Command

namespace Courier

open Courier.Time

/-- A session with a service. -/
structure Session (σ : Type) [Backend σ] where
  supervisor : Supervisor (Unreliable σ)
  kind : StoreKind
  /-- Whether the loops of the service run while time passes. -/
  background : Bool
  /-- The time that passes before every command. -/
  pace : Span
  /-- The consumers of the session itself. -/
  consumers : List Consumer := []
  /-- How often the session's own worker that fires jobs has woken the consumers. -/
  woken : Nat := 0
  transaction : Option (Backend.Transaction (Unreliable σ)) := none
  /-- The item claimed last. -/
  claimed : Option (WorkItemId × Shard) := none
  /-- The number of items filed without a queue name. -/
  unkeyed : Nat := 0

namespace Session

variable {σ : Type} [Backend σ]

/-- A session that is just beginning. -/
def create (settings : ServiceSettings) (kind : StoreKind) (start : Instant) (background : Bool)
    (pace : Span) (store : σ) : Session σ where
  supervisor := .create settings { origin := start } { store }
  kind
  background
  pace

/-! ### Parts -/

/-- The clocks. -/
def clock (s : Session σ) : Clock := s.supervisor.clock

/-- The store past its faults. -/
def store (s : Session σ) : σ := s.supervisor.store.store

/-- The store as the workers see it. -/
def seen (s : Session σ) : Unreliable σ := s.supervisor.store

/-- A session after a change to the store as the workers see it. -/
def withSeen (s : Session σ) (seen : Unreliable σ) : Session σ :=
  { s with supervisor := s.supervisor.withDepot { s.supervisor.depot with store := seen } }

/-- A session after a change to the store. -/
def withStore (s : Session σ) (store : σ) : Session σ := s.withSeen { s.seen with store }

/-- A session after a change to the faults of the store. -/
def withFaults (s : Session σ) (change : Faults → Faults) : Session σ :=
  s.withSeen { s.seen with faults := change s.seen.faults }

/-- Lets the store answer past its faults. -/
def ask {α : Type} (s : Session σ) (run : Clock → σ → Answer σ α) : Answer (Session σ) α :=
  let (result, store) := run s.clock s.store
  (result, s.withStore store)

/-- Lets the service answer. -/
def direct {α : Type} (s : Session σ)
    (run : Supervisor (Unreliable σ) → Answer (Supervisor (Unreliable σ)) α) :
    Answer (Session σ) α :=
  let (result, supervisor) := run s.supervisor
  (result, { s with supervisor })

/-- The reply with an answer. -/
def reply {α : Type} (f : α → Reply) : Answer (Session σ) α → Reply × Session σ
  | (result, s) => (.ofResult f result, s)

/-! ### Time -/

/-- Time passes. -/
def pass (span : Span) (s : Session σ) : Session σ :=
  { s with supervisor :=
      if s.background then s.supervisor.pass span
      else s.supervisor.withClock (s.clock.after span) }

/-- Moves the clock that the store goes by: a clock of its own, or the time of day. -/
def advance (span : Span) (s : Session σ) : Session σ :=
  let clock := match s.kind with
    | .memory => { s.clock with storeShift := s.clock.storeShift + span }
    | .postgres => { s.clock with origin := s.clock.origin + span }
  { s with supervisor := s.supervisor.withClock clock }

/-! ### Filing and settling -/

/-- The queue name of the next item that names none. -/
def freshName (s : Session σ) : String := s!"<unkeyed:{s.unkeyed + 1}>"

/-- Files an item. -/
def enqueue (item : NewItem) (s : Session σ) : Reply × Session σ :=
  match s.ask fun clock => Backend.enqueue clock s.freshName item with
  | (.ok result, after) =>
    (.enqueued result,
      if item.queue.isNone then { after with unkeyed := s.unkeyed + 1 } else after)
  | (.error e, after) => (.failed e, after)

/-- The number and the shard of an item that is to be settled. -/
def find? (s : Session σ) : ItemRef → Option (WorkItemId × Shard)
  | .number id shard => some (id, shard)
  | .claimed => s.claimed

/-- The operation that settles an item. -/
def Settlement.operation (id : WorkItemId) (shard : Shard) : Settlement → Operation
  | .complete => .complete id shard
  | .fail => .fail id shard
  | .delay => .delay id shard

/-- Carries out an operation; an item that is claimed is remembered. -/
def operate (operation : Operation) (s : Session σ) : Reply × Session σ :=
  match s.ask fun clock store => operation.run clock store with
  | (.ok (.claimed (some item)), s) =>
    (.claimed (some item), { s with claimed := some (item.id, item.shard) })
  | answer => reply .ofValue answer

/-- Claims and completes items of a shard until none is left to claim, at most a number of
    them. -/
def completeShard (shard : Shard) : Nat → Session σ →
    Answer (Session σ) (List (WorkItemId × String))
  | 0, s => (.ok [], s)
  | n + 1, s =>
    match s.ask fun clock => Backend.next clock shard with
    | (.error e, s) => (.error e, s)
    | (.ok none, s) => (.ok [], s)
    | (.ok (some item), s) =>
      match s.ask fun clock => Backend.complete clock item.id shard with
      | (.error e, s) => (.error e, s)
      | (.ok (), s) => (completeShard shard n s).map ((item.id, item.url) :: ·)

/-- Claims and completes items, shard by shard. -/
def completeShards (budget : Nat) : List Shard → Session σ →
    Answer (Session σ) (List (WorkItemId × String))
  | [], s => (.ok [], s)
  | shard :: shards, s =>
    match s.completeShard shard budget with
    | (.error e, s) => (.error e, s)
    | (.ok items, s) => (completeShards budget shards s).map (items ++ ·)

/-- Files, claims and completes items of a queue, a millisecond passing before each is claimed. -/
def fill (queue : QueueRef) : List Nat → Session σ → Answer (Session σ) Unit
  | [], s => (.ok (), s)
  | i :: rest, s =>
    let item : NewItem := { url := s!"http://fill/{i}", queue := some queue.name }
    match s.ask fun clock => Backend.enqueue clock queue.name item with
    | (.error e, s) => (.error e, s)
    | (.ok _, s) =>
      match (s.pass (.ofMillis 1)).ask fun clock => Backend.next clock queue.shard with
      | (.error e, s) => (.error e, s)
      | (.ok none, s) => fill queue rest s
      | (.ok (some claimed), s) =>
        match s.ask fun clock => Backend.complete clock claimed.id queue.shard with
        | (.error e, s) => (.error e, s)
        | (.ok (), s) => fill queue rest s

/-! ### Transactions -/

/-- Runs a statement in the open transaction. -/
def statement {α : Type} (s : Session σ) (f : α → Reply)
    (run : Unreliable σ → Backend.Transaction (Unreliable σ) →
      Answer (Backend.Transaction (Unreliable σ)) α) : Reply × Session σ :=
  match s.transaction with
  | none => (.refused .noTransaction, s)
  | some tx =>
    let (result, tx) := run s.seen tx
    (.ofResult f result, { s with transaction := some tx })

/-- Opens a transaction. -/
def begin_ (s : Session σ) : Reply × Session σ :=
  match Backend.begin_ s.seen with
  | .ok tx => (.done, { s with transaction := some tx })
  | .error e => (.failed e, s)

/-- Ends the open transaction. -/
def finish (s : Session σ)
    (run : Backend.Transaction (Unreliable σ) → Unreliable σ → Answer (Unreliable σ) Unit) :
    Reply × Session σ :=
  match s.transaction with
  | none => (.refused .noTransaction, s)
  | some tx =>
    let (result, seen) := run tx s.seen
    (.ofResult (fun _ => .done) result, { s with transaction := none }.withSeen seen)

/-! ### Workers -/

/-- The jobs of the service. -/
def jobs (s : Session σ) : List Cron.Job := s.supervisor.settings.jobs

/-- Judges the scheduled jobs. -/
def tick (now : Instant) (s : Session σ) : Answer (Session σ) Nat :=
  s.direct fun supervisor => supervisor.answer fun depot =>
    depot.answer (Cron.tick s.clock now s.jobs)

/-- Runs one execution of the session's own worker that fires jobs. -/
def fireJobs (s : Session σ) : Reply × Session σ :=
  match s.tick s.clock.now with
  | (.error e, s) => (.failed e, s)
  | (.ok fired, s) =>
    let woken := if fired = 0 then s.woken else s.woken + 1
    (.fired woken (s.jobs.map (·.name)), { s with woken })

/-- Requests the first pending item of a queue without settling it. -/
def dispatch (queue : QueueRef) (s : Session σ) : Reply × Session σ :=
  match Backend.pending queue s.store with
  | .error e => (.failed e, s)
  | .ok [] => (.refused .noPendingItem, s)
  | .ok (item :: _) =>
    let (outcome, depot) := s.supervisor.settings.dispatcher.dispatch item s.supervisor.depot
    (.outcome outcome, { s with supervisor := s.supervisor.withDepot depot })

/-- Runs one execution of the session's own consumer of a shard. -/
def consume (shard : Shard) (s : Session σ) : Reply × Session σ :=
  let consumer := (s.consumers.find? (·.shard = shard)).getD { shard }
  let (result, consumer, depot) :=
    consumer.execute s.supervisor.settings.dispatcher s.clock s.supervisor.depot
  (.ofResult (.consumed · consumer) result,
    { s with
      consumers := consumer :: s.consumers.filter (·.shard ≠ shard)
      supervisor := s.supervisor.withDepot depot })

/-! ### Commands -/

/-- Whether a command waits for the end of an open transaction. -/
def mustWait (s : Session σ) (command : Command) : Bool :=
  s.transaction.isSome &&
    match s.kind, command with
    | .memory, .jobRecords | .memory, .begin_ | .memory, .tick _ | .memory, .fireJobs
    | .memory, .operate .clear => true
    | .memory, _ => false
    | .postgres, .createJob _ | .postgres, .selectJob _ | .postgres, .updateJob _ _
    | .postgres, .enqueueJob _ | .postgres, .commit | .postgres, .abandon => false
    | .postgres, _ => true

/-- Carries out a command that need not wait. -/
def perform (s : Session σ) : Command → Reply × Session σ
  | .enqueue item => s.enqueue item
  | .settle how item =>
    match s.find? item with
    | some (id, shard) => s.operate (how.operation id shard)
    | none => (.refused .nothingClaimed, s)
  | .operate operation => s.operate operation
  | .state queue => (.ofResult .state (Backend.queueState queue s.store), s)
  | .pending queue => (.ofResult .items (Backend.pending queue s.store), s)
  | .completed shard => (.ofResult .completed (Backend.completed shard s.store), s)
  | .health => (.ofResult .health (Backend.health s.store), s)
  | .advance span => (.done, s.advance span)
  | .sleep span => (.done, s.pass span)
  | .completeAll =>
    reply .delivered
      (s.completeShards (Backend.pendingCount s.store + 1) (Backend.sharding s.store).shards)
  | .fill queue count => reply (fun _ => .done) (s.fill queue (List.range count))
  | .jobRecords => (.ofResult .jobRecords (Backend.jobRecords s.store), s)
  | .begin_ => s.begin_
  | .createJob name => s.statement (fun _ => .done) (Backend.createJob name)
  | .selectJob name => s.statement .jobRecord (Backend.selectJob name)
  | .updateJob name at_ =>
    s.statement (fun _ => .done) (Backend.updateJob name (at_.getD s.clock.now))
  | .enqueueJob item =>
    s.statement (fun _ => .done) (Backend.enqueueJob s.clock s.freshName item)
  | .commit => s.finish (Backend.commit s.clock)
  | .abandon =>
    match s.finish fun tx store => (.ok (), Backend.abandon tx store) with
    | (_, s) => (.done, s)
  | .tick now => reply .count (s.tick (now.getD s.clock.now))
  | .fireJobs => s.fireJobs
  | .dispatch queue => s.dispatch queue
  | .consume shard => s.consume shard
  | .processOne queueName => reply .flag (s.direct (·.processOne queueName))
  | .drain => reply .count (s.direct (·.drain))
  | .report => (.report s.supervisor.health, s)
  | .serviceHealth => (.ofResult .health (Backend.health s.seen), s)
  | .pollNow => (.done, { s with supervisor := s.supervisor.pollNow })
  | .start => (.done, { s with supervisor := s.supervisor.start })
  | .shutdown => (.flag true, { s with supervisor := s.supervisor.shutdown })
  | .inject method reason => (.done, s.withFaults (·.set method reason))
  | .inactive names => (.done, s.withFaults fun faults => { faults with inactive := names })
  | .stale on_ => (.done, s.withFaults fun faults => { faults with stale := on_ })

/-- Lets the time pass that passes before every command. -/
def pause (s : Session σ) : Session σ := if 0 < s.pace then s.pass s.pace else s

/-- Carries out a command. -/
def run (command : Command) (s : Session σ) : Reply × Session σ :=
  if s.mustWait command then (.refused .transactionOpen, s) else s.perform command

/-- What can be seen of the queues of the names given. -/
def watch (s : Session σ) (names : List String) : List (Except Error (Option QueueState)) :=
  names.map fun name =>
    Backend.queueState (.ofName (Backend.sharding s.store) name) s.store

end Session

end Courier
