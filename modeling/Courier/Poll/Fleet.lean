/-
  Courier/Poll/Fleet.lean
  =======================
  **Several loops on one timeline.**

  A fleet is a list of loops over a common world.  Time passes from event to
  event: the loop that is due first goes on, of several that are due at the same
  instant the one that comes first in the list.  An execution that takes no time
  ends in the same step in which it begins.
-/
import Courier.Poll.Loop

namespace Courier.Poll

open Courier.Time

/-- What one execution of a worker comes to. -/
structure Execution where
  result : Except Error Bool
  takes : Span := 0
  /-- The loops that the execution wakes, by number. -/
  wakes : List Nat := []
  /-- The milliseconds by which the sleep after it is varied. -/
  offset : Int := 0
deriving Inhabited

/-- What the workers do: the worker of a number, at a time, in a world. -/
abbrev Workers (ω : Type) := Nat → Clock → ω → Execution × ω

/-- Loops on one timeline. -/
structure Fleet (ω : Type) where
  clock : Clock
  loops : List Loop
  world : ω

namespace Fleet

variable {ω : Type}

/-- Changes the loop of a number. -/
def updateLoop (f : Fleet ω) (i : Nat) (change : Loop → Loop) : Fleet ω :=
  { f with loops := f.loops.modify i change }

/-- Changes every loop. -/
def updateAll (f : Fleet ω) (change : Loop → Loop) : Fleet ω :=
  { f with loops := f.loops.map change }

/-- Wakes the loops of the numbers given. -/
def wakeAll (f : Fleet ω) (numbers : List Nat) : Fleet ω :=
  numbers.foldl (fun f i => f.updateLoop i (·.wake f.clock.uptime)) f

/-- Spawns every loop. -/
def spawnAll (f : Fleet ω) : Fleet ω := f.updateAll (·.spawn f.clock.uptime)

/-- Asks every loop to end. -/
def cancelAll (f : Fleet ω) : Fleet ω := f.updateAll (·.cancel f.clock.uptime)

/-- The one that goes on first of a loop and those looked at before it, by number and time. -/
def earlier (first : Option (Nat × Span)) (entry : Loop × Nat) : Option (Nat × Span) :=
  match entry.1.wakesAt?, first with
  | none, _ => first
  | some t, none => some (entry.2, t)
  | some t, some (j, u) => if t < u then some (entry.2, t) else some (j, u)

/-- The number and the time of the loop that goes on first. -/
def next? (f : Fleet ω) : Option (Nat × Span) := f.loops.zipIdx.foldl earlier none

/-- A loop goes on. -/
def goOn (workers : Workers ω) (f : Fleet ω) (i : Nat) (l : Loop) : Fleet ω :=
  match l.phase with
  | .unstarted | .ended => f
  | .due _ =>
    if l.cancelled then f.updateLoop i Loop.stop
    else
      let (execution, world) := workers i f.clock f.world
      let f := ({ f with world }).wakeAll execution.wakes
      f.updateLoop i (·.run f.clock execution.takes execution.result execution.offset)
  | .executing _ result offset => f.updateLoop i (·.endExecution f.clock result offset)
  | .sleeping _ _ => f.updateLoop i (·.rise f.clock.uptime)

/-- The first event that is not after a point in time happens, if there is one. -/
def step? (workers : Workers ω) (deadline : Span) (f : Fleet ω) : Option (Fleet ω) :=
  match f.next? with
  | none => none
  | some (i, t) =>
    if deadline < t then none
    else
      let f := { f with clock := f.clock.reach t }
      f.loops[i]?.map (f.goOn workers i)

/-- Events happen up to a point in time, at most a number of them. -/
def runEvents (workers : Workers ω) (deadline : Span) : Nat → Fleet ω → Fleet ω
  | 0, f => f
  | n + 1, f =>
    match f.step? workers deadline with
    | none => f
    | some f => runEvents workers deadline n f

/-- The finest sleep of the loops in nanoseconds, or a millisecond if that is less. -/
def grain (f : Fleet ω) : Int :=
  ((f.loops.flatMap fun l => [l.settings.interval.nanos, l.settings.cooldown.nanos]).filter
    (0 < ·)).foldl min 1000000

/-- A bound on the number of events in a span of time of loops that have a number of executions to
    do without sleeping in between. -/
def eventBound (f : Fleet ω) (span : Span) (pending : Nat) : Nat :=
  4 * (f.loops.length + 1) * ((span.nanos / f.grain).toNat + 2) + 4 * (pending + 2)

/-- A span of time passes. -/
def pass (workers : Workers ω) (span : Span) (pending : Nat) (f : Fleet ω) : Fleet ω :=
  let deadline := f.clock.uptime + span
  let f := f.runEvents workers deadline (f.eventBound span pending)
  { f with clock := f.clock.at_ deadline }

/-- Time passes until every loop that was asked to end has ended; at most `n` events happen. -/
def runToEnd (workers : Workers ω) : Nat → Fleet ω → Fleet ω
  | 0, f => f
  | n + 1, f =>
    if f.loops.any fun l => l.isRunning && l.cancelled then
      match f.next? with
      | none => f
      | some (_, t) =>
        match f.step? workers t with
        | none => f
        | some f => runToEnd workers n f
    else f

/-- Waits for the loops to end. -/
def join (workers : Workers ω) (f : Fleet ω) : Fleet ω :=
  f.runToEnd workers (4 * (f.loops.length + 1))

/-- Executes the worker of a number directly; the loops go on while that takes time. -/
def execute (workers : Workers ω) (i : Nat) (pending : Nat) (f : Fleet ω) :
    Except Error Bool × Fleet ω :=
  let f := f.updateLoop i (·.directStart f.clock.now)
  let (execution, world) := workers i f.clock f.world
  let f := ({ f with world }).wakeAll execution.wakes
  let f := if 0 < execution.takes then f.pass workers execution.takes pending else f
  (execution.result, f.updateLoop i (·.directFinish f.clock.now))

end Fleet

end Courier.Poll
