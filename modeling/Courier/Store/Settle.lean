/-
  Courier/Store/Settle.lean
  =========================
  **Settling a claimed item: complete, fail, delay.**

  Only the head of a queue is settled; any other item is not found.  Failing
  counts an error and backs the queue off, delaying releases the lease at once.
  Completing is a sequence of `Effect`s (`Store.completion`): put the deferred
  lock on the row, move the queue on to its next linked item or to a placeholder
  that inherits the block, or remove its row, remove the item, release its block,
  and archive it.  The effects are carried out one by one in that order
  (`Store.perform`), so what another shard sees between two of them can be stated.
-/
import Courier.Store.Basic

namespace Courier

open Courier.Time

/-! ### Heads -/

/-- The item of a number, if it is the head of its queue. -/
def Lane.head (l : Lane) (id : WorkItemId) : Except Error (WorkItem × Row) :=
  match l.item? id with
  | none => .error (.notFound (.item id))
  | some item =>
    match l.row? item.queueName with
    | some row =>
      if row.head = id then .ok (item, row)
      else .error (.notFound (.head id item.queueName))
    | none => .error (.notFound (.head id item.queueName))

/-- The oldest linked item of a queue name other than the given one. -/
def Lane.successor? (l : Lane) (name : String) (id : WorkItemId) : Option WorkItem :=
  l.items.find? fun item => item.queueName = name ∧ item.isIngested = true ∧ item.id ≠ id

/-! ### Completion as effects -/

/-- One change to the store on the way of a completion. -/
inductive Effect where
  /-- A lock is put on a queue. -/
  | putLock (queue : QueueRef) (lock : String)
  /-- A placeholder is added under the next number. -/
  | addPlaceholder (item : WorkItem)
  /-- A change to the blocks of a queue is posted. -/
  | post (message : BlockingMessage)
  /-- A queue moves on to another head. -/
  | rehead (queue : QueueRef) (head : WorkItemId) (lockedUntil : Instant)
  /-- The row of a queue is removed. -/
  | removeRow (queue : QueueRef)
  /-- A pending item is removed. -/
  | removeItem (shard : Shard) (id : WorkItemId)
  /-- A completed item is recorded. -/
  | archive (shard : Shard) (item : CompletedItem)
deriving DecidableEq, Repr

namespace Effect

/-- Carries out one effect. -/
def apply (s : Store) : Effect → Answer Store Unit
  | .putLock queue lock =>
    (.ok (), s.updateLane queue.shard (·.updateRow queue.name fun row =>
      { row with lock := some lock }))
  | .addPlaceholder item =>
    (.ok (), { s with nextId := s.nextId + 1 }.updateLane item.shard (·.addItem item))
  | .post message => s.post message
  | .rehead queue head lockedUntil =>
    (.ok (), s.updateLane queue.shard (·.updateRow queue.name fun row =>
      { row with head, lockedUntil, errorCount := 0 }))
  | .removeRow queue => (.ok (), s.updateLane queue.shard (·.removeRow queue.name))
  | .removeItem shard id => (.ok (), s.updateLane shard (·.removeItem id))
  | .archive shard item =>
    (.ok (), s.updateLane shard fun lane => { lane with completed := lane.completed ++ [item] })

end Effect

namespace Store

/-- Carries out effects in order, up to the first that fails. -/
def perform (s : Store) : List Effect → Answer Store Unit
  | [] => (.ok (), s)
  | effect :: effects =>
    match effect.apply s with
    | (.error e, s) => (.error e, s)
    | (.ok (), s) => s.perform effects

/-- The message that an item begins or ceases to block a queue, if it blocks one. -/
def blockEffects (blocking : Blocking) (isCreatingBlock : Bool) (token : BlockToken) :
    List Effect :=
  match blocking with
  | .none => []
  | .queue target => [.post ⟨target, isCreatingBlock, token⟩]

/-- How a queue moves on when its head completes: to the next linked item, else to a placeholder
    while the queue is paused or locked, else not at all. -/
def advanceEffects (s : Store) (lane : Lane) (now : Instant) (item : WorkItem)
    (keepAlive : Bool) : List Effect :=
  let queue := item.queueRef
  match lane.successor? item.queueName item.id with
  | some next => [.rehead queue next.id next.createdAt]
  | none =>
    if keepAlive then
      let id := s.nextId
      .addPlaceholder (.placeholder id queue item.blocking now)
        :: blockEffects item.blocking true ⟨id, queue.shard⟩ ++ [.rehead queue id now]
    else [.removeRow queue]

/-- The effects of completing an item, if it may be completed. -/
def completion (s : Store) (now : Instant) (id : WorkItemId) (lane : Lane) :
    Except Error (List Effect) :=
  match lane.head id with
  | .error e => .error e
  | .ok (item, row) =>
    if lane.blockedBy item.queueName ≠ [] then .error (.completedWhileBlocked item.queueName id)
    else
      let queue := item.queueRef
      let finish := .removeItem lane.shard id
        :: blockEffects item.blocking false ⟨id, lane.shard⟩
        ++ [.archive lane.shard ⟨item, now⟩]
      match item.lockWhenComplete, row.lock with
      | some lock, some held =>
        if held = lock then
          .ok (.putLock queue lock :: s.advanceEffects lane now item true ++ finish)
        else .error (.lockConflict item.queueName held lock)
      | some lock, none =>
        .ok (.putLock queue lock :: s.advanceEffects lane now item true ++ finish)
      | none, held => .ok (s.advanceEffects lane now item (row.isPaused || held.isSome) ++ finish)

/-- Completes a claimed item. -/
def complete (now : Instant) (id : WorkItemId) (shard : Shard) (s : Store) :
    Answer Store Unit :=
  s.withLane shard fun lane =>
    match s.completion now id lane with
    | .error e => (.error e, s)
    | .ok effects => s.perform effects

/-! ### Failure and delay -/

/-- Changes the row of a claimed item. -/
def settleRow (id : WorkItemId) (shard : Shard) (f : Row → Row) (s : Store) :
    Answer Store Unit :=
  s.withLane shard fun lane =>
    match lane.head id with
    | .error e => (.error e, s)
    | .ok (item, _) => (.ok (), s.setLane (lane.updateRow item.queueName f))

/-- Counts an error and backs the queue off. -/
def fail (now : Instant) (id : WorkItemId) (shard : Shard) (s : Store) : Answer Store Unit :=
  s.settleRow id shard fun row =>
    { row with errorCount := row.errorCount + 1, lockedUntil := now + failureBackoff }

/-- Releases the lease without counting an error. -/
def delay (now : Instant) (id : WorkItemId) (shard : Shard) (s : Store) : Answer Store Unit :=
  s.settleRow id shard fun row => { row with errorCount := 0, lockedUntil := now }

end Store

end Courier
