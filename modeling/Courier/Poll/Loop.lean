/-
  Courier/Poll/Loop.lean
  ======================
  **Poll loops: execute, sleep, execute again.**

  A loop runs a worker.  While an execution reports more work the next one follows
  at once; otherwise the loop sleeps for the worker's interval, and after a failure
  for a cooldown.  A wake-up cuts an idle sleep short if the worker is wakeable; a
  wake-up at any other time is banked, once, for the next idle sleep.
  Cancellation ends any sleep and is obeyed between executions.

  The loop is a machine.  Its `Phase` says what it waits for; `beginExecution`,
  `endExecution`, `rise`, `wake`, `cancel` and `stop` are its transitions.  What is
  shown of a loop (`LoopStatus`) is kept apart from its phase, because the worker may
  also be executed directly.
-/
import Courier.Error
import Courier.Health
import Courier.Time.Clock
import Courier.Time.Rfc3339

namespace Courier.Poll

open Courier.Time

/-! ### Settings -/

/-- Longer intervals are varied, so that workers drift apart. -/
def jitterThreshold : Span := .ofSeconds 30

/-- By how much an interval is varied at most. -/
def greatestJitter : Span := .ofSeconds 5

/-- How long a loop rests after a failure unless configured otherwise. -/
def defaultErrorCooldown : Span := .ofMinutes 5

/-- The name and the habits of a worker. -/
structure Settings where
  name : String
  /-- The sleep between polls. -/
  interval : Span
  /-- Whether a wake-up cuts the sleep short. -/
  wakeable : Bool := true
  cooldown : Span := defaultErrorCooldown
deriving DecidableEq, Repr, Inhabited

/-- The value of an integer as a signed word of 64 bits. -/
def word64 (n : Int) : Int := Int.bmod n (Nat.pow 2 64)

/-- An interval varied by a number of milliseconds.  Milliseconds are counted in a signed word,
    and a negative count is no sleep at all. -/
def jittered (interval : Span) (offset : Int) : Span :=
  if interval ≤ jitterThreshold then interval
  else .ofMillis (max 0 (word64 (word64 interval.millis + offset)))

/-- The longest span that the clocks can represent: its seconds fit an unsigned word. -/
def greatestDuration : Span := ⟨Nat.pow 2 64 * 1000000000 - 1⟩

/-- The longest span that instants are compared over: its milliseconds fit a signed word. -/
def greatestDifference : Span := .ofMillis (Nat.pow 2 63 - 1)

/-- How long a loop may go without an execution, if that can be represented. -/
def allowance? (interval : Span) : Option Span :=
  if interval ≤ jitterThreshold then some interval
  else if interval + greatestJitter ≤ greatestDuration then some (interval + greatestJitter)
  else none

/-- How long a loop may go without an execution, as far as instants can be compared. -/
def allowance (interval : Span) : Span :=
  let span := (allowance? interval).getD greatestDifference
  if greatestDifference < span then greatestDifference else span

/-! ### What is shown of a loop -/

/-- What a loop is doing. -/
inductive LoopState where
  | idle
  | executing
  | sleeping
  | coolingDown
  | stopped
deriving DecidableEq, Repr, Inhabited

/-- The word for what a loop is doing. -/
def LoopState.name : LoopState → String
  | .idle => "idle"
  | .executing => "executing"
  | .sleeping => "sleeping"
  | .coolingDown => "cooling_down"
  | .stopped => "stopped"

/-- The record of a loop's executions. -/
structure LoopStatus where
  state : LoopState
  createdAt : Instant
  lastStarted : Option Instant
  lastFinished : Option Instant
  executions : Nat
  lastError : Option String
deriving DecidableEq, Repr, Inhabited

namespace LoopStatus

/-- The record of a loop that was just made. -/
def create (now : Instant) : LoopStatus := ⟨.idle, now, none, none, 0, none⟩

/-- Records the start of an execution. -/
def started (s : LoopStatus) (now : Instant) : LoopStatus :=
  { s with state := .executing, lastStarted := some now, executions := s.executions + 1 }

/-- Records the end of an execution. -/
def finished (s : LoopStatus) (now : Instant) : LoopStatus :=
  { s with state := .idle, lastFinished := some now }

/-- The latest of creation, last start and last end. -/
def reference (s : LoopStatus) : Instant :=
  let latest := (s.lastStarted.map (Instant.max s.createdAt)).getD s.createdAt
  (s.lastFinished.map (Instant.max latest)).getD latest

/-- The record in words. -/
def info (s : LoopStatus) : String :=
  let runs := match s.lastStarted with
    | some t => s!"{s.executions} executions, last started {t.toOffsetText}"
    | none => "no executions yet"
  match s.lastError with
  | some error => s!"{runs}; last error: {error}"
  | none => runs

end LoopStatus

/-! ### The machine -/

/-- What a loop waits for.  Points in time are uptimes. -/
inductive Phase where
  /-- The loop has not been spawned. -/
  | unstarted
  /-- The loop goes on at a point in time. -/
  | due (at_ : Span)
  /-- An execution is in flight, with the result it will have and the milliseconds by which the
      sleep after it is varied. -/
  | executing (until_ : Span) (result : Except Error Bool) (offset : Int)
  /-- The loop sleeps, and may be woken if it is idle and its worker wakeable. -/
  | sleeping (until_ : Span) (wakeable : Bool)
  /-- The loop has ended after cancellation. -/
  | ended

/-- A poll loop. -/
structure Loop where
  settings : Settings
  status : LoopStatus
  phase : Phase := .unstarted
  /-- Whether a wake-up is kept for the next idle sleep. -/
  wakeBanked : Bool := false
  cancelled : Bool := false

namespace Loop

/-- A loop that was just made. -/
def create (settings : Settings) (now : Instant) : Loop := { settings, status := .create now }

/-- Spawns the loop, unless it is running.  A loop that was asked to end does so at once. -/
def spawn (l : Loop) (uptime : Span) : Loop :=
  match l.phase with
  | .unstarted | .ended => { l with phase := .due uptime }
  | _ => l

/-- Whether the loop was spawned and has not ended. -/
def isRunning (l : Loop) : Bool :=
  match l.phase with
  | .unstarted | .ended => false
  | _ => true

/-- The point in time at which the loop goes on. -/
def wakesAt? (l : Loop) : Option Span :=
  match l.phase with
  | .unstarted | .ended => none
  | .due t => some t
  | .executing t _ _ => some t
  | .sleeping t _ => some t

/-- Cuts the current or the next idle sleep short. -/
def wake (l : Loop) (uptime : Span) : Loop :=
  if l.settings.wakeable then
    match l.phase with
    | .sleeping _ true => { l with phase := .due uptime }
    | _ => { l with wakeBanked := true }
  else l

/-- Asks the loop to end. -/
def cancel (l : Loop) (uptime : Span) : Loop :=
  match l.phase with
  | .sleeping _ _ => { l with phase := .due uptime, cancelled := true }
  | _ => { l with cancelled := true }

/-- The loop ends. -/
def stop (l : Loop) : Loop :=
  { l with phase := .ended, status := { l.status with state := .stopped } }

/-- An execution begins; it will take a span of time and have a result. -/
def beginExecution (l : Loop) (clock : Clock) (takes : Span) (result : Except Error Bool)
    (offset : Int) : Loop :=
  { l with
    phase := .executing (clock.uptime + takes) result offset
    status := l.status.started clock.now }

/-- The loop falls asleep until it is due again or woken; a banked wake-up is spent at once. -/
def sleep (l : Loop) (uptime span : Span) (state : LoopState) (wakeable : Bool) : Loop :=
  let l := { l with status := { l.status with state } }
  if l.cancelled then { l with phase := .due uptime }
  else if wakeable && l.wakeBanked then { l with phase := .due uptime, wakeBanked := false }
  else { l with phase := .sleeping (uptime + span) wakeable }

/-- An execution ends.  `offset` varies the sleep that follows, in milliseconds. -/
def endExecution (l : Loop) (clock : Clock) (result : Except Error Bool) (offset : Int) : Loop :=
  let l := { l with status := l.status.finished clock.now }
  match result with
  | .ok true => { l with phase := .due clock.uptime }
  | .ok false =>
    l.sleep clock.uptime (jittered l.settings.interval offset) .sleeping l.settings.wakeable
  | .error e =>
    let l := { l with status := { l.status with lastError := some e.message } }
    l.sleep clock.uptime l.settings.cooldown .coolingDown false

/-- An execution begins, and ends at once if it takes no time. -/
def run (l : Loop) (clock : Clock) (takes : Span) (result : Except Error Bool) (offset : Int) :
    Loop :=
  let l := l.beginExecution clock takes result offset
  if 0 < takes then l else l.endExecution clock result offset

/-- A sleep ends by itself. -/
def rise (l : Loop) (uptime : Span) : Loop := { l with phase := .due uptime }

/-! ### Direct executions -/

/-- Records the start of an execution outside the loop. -/
def directStart (l : Loop) (now : Instant) : Loop := { l with status := l.status.started now }

/-- Records the end of an execution outside the loop. -/
def directFinish (l : Loop) (now : Instant) : Loop := { l with status := l.status.finished now }

/-! ### Health -/

/-- The health of the loop: it has not stopped, and its last sign of life is no further back than
    it may be. -/
def health (l : Loop) (now : Instant) : WorkerHealth where
  healthy := l.status.state ≠ .stopped && now - l.status.reference ≤ allowance l.settings.interval
  name := l.settings.name
  state := l.status.state.name
  info := l.status.info

end Loop

end Courier.Poll
