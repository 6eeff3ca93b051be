/-
  Courier/Consumer.lean
  =====================
  **Consumers: claim, dispatch, settle.**

  A consumer serves one shard.  One execution claims at most one item, requests
  its URL and settles it by the outcome; a placeholder is completed without a
  request.  The three steps are definitions of their own (`Consumer.claim`,
  `DispatchConfig.dispatch`, `Consumer.settle`), because between them other
  consumers and operators may act.  A consumer that finds nothing to claim purges
  the completed items of its shard, at most once an hour.
-/
import Courier.Backend
import Courier.Dispatch

namespace Courier

open Courier.Time

/-! ### Where consumers work -/

/-- A store together with the requests that were sent for its items, latest first. -/
structure Depot (σ : Type) where
  store : σ
  sent : List Request := []

/-- Lets the store of a depot answer. -/
def Depot.answer {σ α : Type} (d : Depot σ) (run : σ → Answer σ α) : Answer (Depot σ) α :=
  let (result, store) := run d.store
  (result, { d with store })

/-- What consumers need to request items. -/
structure Dispatcher where
  config : DispatchConfig := {}
  network : Network := .unreachable

/-- Dispatches an item of a depot. -/
def Dispatcher.dispatch {σ : Type} (dispatcher : Dispatcher) (item : WorkItem) (d : Depot σ) :
    Outcome × Depot σ :=
  let (outcome, sent) := dispatcher.config.dispatch dispatcher.network d.sent item
  (outcome, { d with sent })

/-! ### Consumers -/

/-- How long a consumer waits between purges at least. -/
def purgeInterval : Span := .ofHours 1

/-- A consumer of one shard. -/
structure Consumer where
  shard : Shard
  /-- The uptime at which it last purged. -/
  lastPurge : Option Span := none
deriving DecidableEq, Repr, Inhabited

namespace Consumer

variable {σ : Type} [Backend σ]

/-- The name of a consumer. -/
def name (c : Consumer) : String := s!"consumer-{c.shard.text}"

/-- Whether a purge is due. -/
def purgeDue (c : Consumer) (clock : Clock) : Bool :=
  match c.lastPurge with
  | none => true
  | some last => purgeInterval ≤ clock.uptime - last

/-- Purges if a purge is due. -/
def purge (c : Consumer) (clock : Clock) (s : σ) : Except Error Unit × Consumer × σ :=
  if c.purgeDue clock then
    match Backend.purge clock c.shard s with
    | (.ok _, s) => (.ok (), { c with lastPurge := some clock.uptime }, s)
    | (.error e, s) => (.error e, c, s)
  else (.ok (), c, s)

/-- Claims the next item of the shard. -/
def claim (c : Consumer) (clock : Clock) (s : σ) : Answer σ (Option WorkItem) :=
  Backend.next clock c.shard s

/-- Settles a claimed item by the outcome of its dispatch; answers whether more work is likely.
    A delayed item can be claimed again at once, but is left for the next poll. -/
def settle (c : Consumer) (clock : Clock) (id : WorkItemId) (outcome : Outcome) (s : σ) :
    Answer σ Bool :=
  match outcome with
  | .complete _ => (Backend.complete clock id c.shard s).map fun _ => true
  | .delay _ => (Backend.delay clock id c.shard s).map fun _ => false
  | .fail _ => (Backend.fail clock id c.shard s).map fun _ => true

/-- Handles a claimed item. -/
def handle (c : Consumer) (dispatcher : Dispatcher) (clock : Clock) (item : WorkItem)
    (d : Depot σ) : Answer (Depot σ) Bool :=
  if item.isPlaceholder then
    d.answer fun s => (Backend.complete clock item.id c.shard s).map fun _ => true
  else
    let (outcome, d) := dispatcher.dispatch item d
    d.answer (c.settle clock item.id outcome)

/-- One execution; answers whether more work is likely. -/
def execute (c : Consumer) (dispatcher : Dispatcher) (clock : Clock) (d : Depot σ) :
    Except Error Bool × Consumer × Depot σ :=
  match d.answer (c.claim clock) with
  | (.error e, d) => (.error e, c, d)
  | (.ok (some item), d) =>
    let (result, d) := c.handle dispatcher clock item d
    (result, c, d)
  | (.ok none, d) =>
    let (result, c, store) := c.purge clock d.store
    (result.map fun _ => false, c, { d with store })

end Consumer

end Courier
