/-
  Courier/Store/Basic.lean
  ========================
  **The state of the in-process store.**

  A `Store` has one `Lane` per shard, the table of scheduled jobs and the next
  item number.  A lane holds the pending items in the order of their numbers, one
  `Row` for each queue with a linked item, the blocks of its queues, the completed
  items in the order of completion and a mailbox of changes to its blocks.  Blocks
  are kept apart from the rows, so that a block can arrive before its queue does.
-/
import Courier.Backend
import Courier.Store.Keyed

namespace Courier

open Courier.Time

/-! ### Rows -/

/-- The lease of one queue. -/
structure Row where
  name : String
  /-- The item handed out next. -/
  head : WorkItemId
  errorCount : Nat
  lockedUntil : Instant
  isPaused : Bool
  lock : Option String
deriving DecidableEq, Repr, Inhabited

/-- The row of a queue that was just made. -/
def Row.start (name : String) (head : WorkItemId) (lockedUntil : Instant) : Row :=
  { name, head, errorCount := 0, lockedUntil, isPaused := false, lock := none }

/-! ### Lanes -/

/-- The part of the store that belongs to one shard. -/
structure Lane where
  shard : Shard
  /-- The pending items, by number. -/
  items : List WorkItem
  /-- The completed items, in the order of completion. -/
  completed : List CompletedItem
  rows : List Row
  /-- The blocks of each queue that has any. -/
  blocks : List (String × List BlockToken)
  /-- Changes to the blocks that have arrived but are not applied yet, oldest first. -/
  mailbox : List BlockingMessage
deriving DecidableEq, Repr, Inhabited

namespace Lane

/-- A lane without items. -/
def empty (shard : Shard) : Lane := ⟨shard, [], [], [], [], []⟩

/-- The pending item of a number. -/
def item? (l : Lane) (id : WorkItemId) : Option WorkItem := l.items.find? (·.id = id)

/-- Replaces the pending item that has the number of the given one. -/
def setItem (l : Lane) (item : WorkItem) : Lane :=
  { l with items := l.items.map fun other => if other.id = item.id then item else other }

/-- Adds an item with the greatest number so far. -/
def addItem (l : Lane) (item : WorkItem) : Lane := { l with items := l.items ++ [item] }

/-- Removes the pending item of a number. -/
def removeItem (l : Lane) (id : WorkItemId) : Lane :=
  { l with items := l.items.filter (·.id ≠ id) }

/-- The row of a queue name. -/
def row? (l : Lane) (name : String) : Option Row := l.rows.find? (·.name = name)

/-- Changes the row of a queue name, if there is one. -/
def updateRow (l : Lane) (name : String) (f : Row → Row) : Lane :=
  { l with rows := l.rows.map fun row => if row.name = name then f row else row }

/-- Adds a row. -/
def addRow (l : Lane) (row : Row) : Lane := { l with rows := l.rows ++ [row] }

/-- Removes the row of a queue name. -/
def removeRow (l : Lane) (name : String) : Lane :=
  { l with rows := l.rows.filter (·.name ≠ name) }

/-- The items that keep a queue name blocked. -/
def blockedBy (l : Lane) (name : String) : List BlockToken :=
  ((l.blocks.find? (·.1 = name)).map (·.2)).getD []

/-- Sets the blocks of a queue name; a name without blocks has no entry. -/
def setBlockedBy (l : Lane) (name : String) (tokens : List BlockToken) : Lane :=
  let others := l.blocks.filter (·.1 ≠ name)
  { l with blocks := if tokens.isEmpty then others else others ++ [(name, tokens)] }

/-- What can be seen of the queue of a name. -/
def queueState? (l : Lane) (name : String) : Option QueueState :=
  (l.row? name).map fun row =>
    { shard := l.shard
      name
      head := row.head
      errorCount := row.errorCount
      lockedUntil := row.lockedUntil
      isPaused := row.isPaused
      externalLock := row.lock
      blockedBy := l.blockedBy name }

/-- The pending items of a queue name, oldest first. -/
def pending (l : Lane) (name : String) : List WorkItem := l.items.filter (·.queueName = name)

/-- The number of rows that have reached the greatest error count. -/
def unhealthyCount (l : Lane) : Nat :=
  (l.rows.filter fun row => greatestErrorCount ≤ row.errorCount).length

/-! ### What a lane finds after a change -/

theorem item?_addItem (l : Lane) (item : WorkItem) (id : WorkItemId) :
    (l.addItem item).item? id = (l.item? id).or (if item.id = id then some item else none) :=
  Keyed.find?_append_single WorkItem.id item id l.items

theorem item?_setItem (l : Lane) (item : WorkItem) (id : WorkItemId) :
    (l.setItem item).item? id =
      if id = item.id then (l.item? id).map fun _ => item else l.item? id :=
  Keyed.find?_map_change WorkItem.id (fun _ => item) item.id id (fun _ _ => rfl) l.items

theorem item?_removeItem (l : Lane) (id other : WorkItemId) :
    (l.removeItem id).item? other = if other = id then none else l.item? other :=
  Keyed.find?_filter_ne WorkItem.id id other l.items

theorem row?_addRow (l : Lane) (row : Row) (name : String) :
    (l.addRow row).row? name = (l.row? name).or (if row.name = name then some row else none) :=
  Keyed.find?_append_single Row.name row name l.rows

theorem row?_updateRow (l : Lane) (name other : String) (f : Row → Row)
    (hf : ∀ row, (f row).name = row.name) :
    (l.updateRow name f).row? other =
      if other = name then (l.row? other).map f else l.row? other :=
  Keyed.find?_map_change Row.name f name other (fun row h => (hf row).trans h) l.rows

theorem row?_removeRow (l : Lane) (name other : String) :
    (l.removeRow name).row? other = if other = name then none else l.row? other :=
  Keyed.find?_filter_ne Row.name name other l.rows

/-- Setting the blocks of one queue name leaves those of every other as they are. -/
theorem blockedBy_setBlockedBy (l : Lane) (name other : String) (tokens : List BlockToken) :
    (l.setBlockedBy name tokens).blockedBy other =
      if other = name then tokens else l.blockedBy other := by
  have hrest := Keyed.find?_filter_ne (fun entry => entry.1) name other l.blocks
  have hadd := Keyed.find?_append_single (fun entry => entry.1) (name, tokens) other
    (l.blocks.filter fun entry => entry.1 ≠ name)
  unfold blockedBy setBlockedBy
  by_cases hempty : tokens.isEmpty
  · simp only [hempty, if_true, hrest]
    rw [List.isEmpty_iff.1 hempty]
    split <;> rfl
  · simp only [if_neg hempty]
    rw [hadd, hrest]
    by_cases ho : other = name
    · simp [ho]
    · have hne : ¬ name = other := fun h => ho h.symm
      simp [ho, hne]

end Lane

/-! ### The store -/

/-- The in-process store. -/
structure Store where
  sharding : Sharding
  /-- One lane per shard, in order. -/
  lanes : List Lane
  /-- The scheduled jobs on record, by name. -/
  jobs : List JobRecord
  nextId : WorkItemId
deriving DecidableEq

namespace Store

/-- A store without items. -/
def empty (sharding : Sharding) : Store := ⟨sharding, sharding.shards.map .empty, [], 1⟩

instance : Inhabited Store := ⟨empty .single⟩

/-- The lane of a shard. -/
def lane? (s : Store) (shard : Shard) : Option Lane := s.lanes.find? (·.shard = shard)

/-- Replaces the lane of a shard. -/
def setLane (s : Store) (lane : Lane) : Store :=
  { s with lanes := s.lanes.map fun other => if other.shard = lane.shard then lane else other }

/-- Changes the lane of a shard, if there is one. -/
def updateLane (s : Store) (shard : Shard) (f : Lane → Lane) : Store :=
  { s with lanes := s.lanes.map fun lane => if lane.shard = shard then f lane else lane }

theorem lane?_setLane (s : Store) (lane : Lane) (shard : Shard) :
    (s.setLane lane).lane? shard =
      if shard = lane.shard then (s.lane? shard).map fun _ => lane else s.lane? shard :=
  Keyed.find?_map_change Lane.shard (fun _ => lane) lane.shard shard (fun _ _ => rfl) s.lanes

/-- Runs an operation on the lane of a shard; a shard of another deployment is not found. -/
def withLane {α : Type} (s : Store) (shard : Shard) (f : Lane → Answer Store α) :
    Answer Store α :=
  match s.lane? shard with
  | some lane => f lane
  | none => (.error (.notFound (.shard shard)), s)

/-- Reads from the lane of a shard. -/
def readLane {α : Type} (s : Store) (shard : Shard) (f : Lane → α) : Except Error α :=
  match s.lane? shard with
  | some lane => .ok (f lane)
  | none => .error (.notFound (.shard shard))

/-- Puts a change to the blocks of a queue into the mailbox of the queue's shard. -/
def post (s : Store) (message : BlockingMessage) : Answer Store Unit :=
  s.withLane message.target.shard fun lane =>
    (.ok (), s.setLane { lane with mailbox := lane.mailbox ++ [message] })

/-! ### Reading -/

/-- What can be seen of a queue. -/
def queueState (s : Store) (queue : QueueRef) : Except Error (Option QueueState) :=
  s.readLane queue.shard (·.queueState? queue.name)

/-- The pending items of a queue, oldest first. -/
def pending (s : Store) (queue : QueueRef) : Except Error (List WorkItem) :=
  s.readLane queue.shard (·.pending queue.name)

/-- The completed items of a shard, in the order of completion. -/
def completed (s : Store) (shard : Shard) : Except Error (List CompletedItem) :=
  s.readLane shard (·.completed)

/-- How the queues are. -/
def health (s : Store) : QueueHealth :=
  .ofUnhealthyCount ((s.lanes.map Lane.unhealthyCount).foldr (· + ·) 0 : Nat)

/-- The number of pending items. -/
def pendingCount (s : Store) : Nat := (s.lanes.map (·.items.length)).foldr (· + ·) 0

end Store

end Courier
