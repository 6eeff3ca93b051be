/-
  Courier/Supervisor.lean
  =======================
  **The loops of a running service.**

  A service runs one consumer loop per shard and, if there are scheduled jobs, one
  loop that fires them.  A firing wakes every consumer.  The loops can be started
  and shut down once; apart from that consumers can be run directly, one execution
  at a time (`processOne`) or until none of them claims anything (`drain`).
-/
import Courier.Consumer
import Courier.Cron.Worker
import Courier.Poll.Fleet

namespace Courier

open Courier.Time Courier.Poll

/-! ### Settings -/

/-- The idle sleep of consumers unless configured otherwise. -/
def defaultPollInterval : Span := .ofSeconds 10

/-- How a service is set up. -/
structure ServiceSettings where
  dispatcher : Dispatcher := {}
  /-- Without jobs there is no loop to fire them. -/
  jobs : List Cron.Job := []
  pollInterval : Span := defaultPollInterval
  cooldown : Span := defaultErrorCooldown

/-! ### The world of the loops -/

/-- What the loops of a service share: a depot, and the consumers that serve it. -/
structure Floor (σ : Type) where
  depot : Depot σ
  consumers : List Consumer

/-- A service with its loops. -/
structure Supervisor (σ : Type) where
  settings : ServiceSettings
  /-- The loops of the consumers by shard, then the loop that fires jobs. -/
  fleet : Fleet (Floor σ)
  /-- Whether the loops were started and not shut down since. -/
  started : Bool := false

namespace Supervisor

variable {σ : Type} [Backend σ]

/-- The name and the habits of a consumer. -/
def consumerSettings (settings : ServiceSettings) (c : Consumer) : Settings :=
  { name := c.name, interval := settings.pollInterval, cooldown := settings.cooldown }

/-- The name and the habits of the worker that fires jobs. -/
def cronSettings (settings : ServiceSettings) : Settings :=
  { name := "cron", interval := Cron.tickInterval, wakeable := false
    cooldown := settings.cooldown }

/-- One execution of the worker that fires jobs: a firing wakes all consumers. -/
def runCron (settings : ServiceSettings) (clock : Clock) (floor : Floor σ) :
    Execution × Floor σ :=
  match floor.depot.answer (Cron.tick clock clock.now settings.jobs) with
  | (.error e, depot) => ({ result := .error e }, { floor with depot })
  | (.ok fired, depot) =>
    ({ result := .ok false
       wakes := if fired = 0 then [] else List.range floor.consumers.length },
      { floor with depot })

/-- What the loops of a service do. -/
def workers (settings : ServiceSettings) : Workers (Floor σ) := fun i clock floor =>
  match floor.consumers[i]? with
  | some consumer =>
    let (result, consumer, depot) := consumer.execute settings.dispatcher clock floor.depot
    ({ result }, { depot, consumers := floor.consumers.set i consumer })
  | none => runCron settings clock floor

/-- A service over a store; nothing runs yet. -/
def create (settings : ServiceSettings) (clock : Clock) (store : σ) : Supervisor σ :=
  let consumers := (Backend.sharding store).shards.map fun shard => { shard : Consumer }
  let cron := if settings.jobs.isEmpty then [] else [cronSettings settings]
  { settings
    fleet :=
      { clock
        loops := (consumers.map (consumerSettings settings) ++ cron).map (.create · clock.now)
        world := { depot := { store }, consumers } } }

/-! ### The parts of a service -/

/-- The depot of a service. -/
def depot (s : Supervisor σ) : Depot σ := s.fleet.world.depot

/-- The store of a service. -/
def store (s : Supervisor σ) : σ := s.depot.store

/-- The clocks of a service. -/
def clock (s : Supervisor σ) : Clock := s.fleet.clock

/-- A service with another depot. -/
def withDepot (s : Supervisor σ) (depot : Depot σ) : Supervisor σ :=
  { s with fleet := { s.fleet with world := { s.fleet.world with depot } } }

/-- A service whose clocks were moved. -/
def withClock (s : Supervisor σ) (clock : Clock) : Supervisor σ :=
  { s with fleet := { s.fleet with clock } }

/-- Lets the depot of a service answer. -/
def answer {α : Type} (s : Supervisor σ) (run : Depot σ → Answer (Depot σ) α) :
    Answer (Supervisor σ) α :=
  let (result, depot) := run s.depot
  (result, s.withDepot depot)

/-! ### The life of a service -/

/-- Starts the loops, unless they were started already. -/
def start (s : Supervisor σ) : Supervisor σ :=
  if s.started then s else { s with fleet := s.fleet.spawnAll, started := true }

/-- A span of time passes while the loops run. -/
def pass (span : Span) (s : Supervisor σ) : Supervisor σ :=
  { s with fleet := s.fleet.pass (workers s.settings) span (Backend.pendingCount s.store) }

/-- Asks the loops to end and waits for them. -/
def shutdown (s : Supervisor σ) : Supervisor σ :=
  { s with fleet := s.fleet.cancelAll.join (workers s.settings), started := false }

/-- Wakes every consumer. -/
def pollNow (s : Supervisor σ) : Supervisor σ :=
  { s with fleet := s.fleet.wakeAll (List.range s.fleet.world.consumers.length) }

/-! ### Direct executions -/

/-- Runs one execution of the consumer of a number. -/
def executeConsumer (i : Nat) (s : Supervisor σ) : Answer (Supervisor σ) Bool :=
  let (result, fleet) := s.fleet.execute (workers s.settings) i 0
  (result, { s with fleet })

/-- Runs one execution of the consumer that owns a queue name; answers whether more work is
    likely. -/
def processOne (queue : String) (s : Supervisor σ) : Answer (Supervisor σ) Bool :=
  let shard := (Backend.sharding s.store).shardFor queue
  match s.fleet.world.consumers.findIdx? (·.shard = shard) with
  | some i => s.executeConsumer i
  | none => (.error (.notFound (.consumer shard)), s)

/-- Runs a consumer while its executions report more work, at most a number of times; counts
    those that did. -/
def drainConsumer (i : Nat) : Nat → Supervisor σ → Answer (Supervisor σ) Nat
  | 0, s => (.ok 0, s)
  | n + 1, s =>
    match s.executeConsumer i with
    | (.error e, s) => (.error e, s)
    | (.ok false, s) => (.ok 0, s)
    | (.ok true, s) => (drainConsumer i n s).map (· + 1)

/-- Drains consumers one after the other, each for at most a number of executions. -/
def drainEach (budget : Nat) : List Nat → Supervisor σ → Answer (Supervisor σ) Nat
  | [], s => (.ok 0, s)
  | i :: rest, s =>
    match s.drainConsumer i budget with
    | (.error e, s) => (.error e, s)
    | (.ok count, s) => (drainEach budget rest s).map (count + ·)

/-- Drains all consumers until a round of them settles nothing, for at most a number of rounds. -/
def drainRounds (budget : Nat) : Nat → Supervisor σ → Answer (Supervisor σ) Nat
  | 0, s => (.ok 0, s)
  | n + 1, s =>
    match s.drainEach budget (List.range s.fleet.world.consumers.length) with
    | (.error e, s) => (.error e, s)
    | (.ok 0, s) => (.ok 0, s)
    | (.ok (count + 1), s) => (drainRounds budget n s).map (count + 1 + ·)

/-- Runs every consumer until none of them claims anything; counts the items settled.  An item is
    settled once while time stands still, so neither a round nor the number of rounds can be
    longer than the number of pending items by more than one. -/
def drain (s : Supervisor σ) : Answer (Supervisor σ) Nat :=
  let budget := Backend.pendingCount s.store + 1
  s.drainRounds budget budget

/-! ### Health -/

/-- The health of the service. -/
def health (s : Supervisor σ) : HealthReport :=
  .aggregate (s.fleet.loops.map (·.health s.clock.now))
    (match Backend.health s.store with
      | .ok queues => .ok queues
      | .error e => .error e.message)

end Supervisor

end Courier
