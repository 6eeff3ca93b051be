/-
  Courier/Json/Model.lean
  =======================
  **The JSON form of the data model.**

  For each type of the model a writer `toJson` and a reader `ofJson?`.  Writers
  name every member; readers take what `Json.members?` takes.  Numbers of shards
  fit 16 bits, error counts 32 and item numbers 64.
-/
import Courier.Json
import Courier.Queue

namespace Courier

open Courier.Text Courier.Time

/-! ### Shards and queues -/

/-- The JSON form of an item number. -/
def WorkItemId.ofJson? : Json → Option WorkItemId := Json.intIn? (.signed 64)

namespace Shard

def toJson (s : Shard) : Json := .obj [("index", .int s.index), ("max_shards", .int s.count)]

def ofJson? (j : Json) : Option Shard := do
  let [index, count] ← j.members? ["index", "max_shards"] | none
  return ⟨← index.intIn? (.signed 16), ← count.intIn? (.signed 16)⟩

end Shard

namespace QueueRef

def toJson (q : QueueRef) : Json := .obj [("name", .str q.name), ("shard", q.shard.toJson)]

def ofJson? (j : Json) : Option QueueRef := do
  let [name, shard] ← j.members? ["name", "shard"] | none
  return ⟨← name.str?, ← Shard.ofJson? shard⟩

end QueueRef

namespace Blocking

def toJson : Blocking → Json
  | .none => .str "none"
  | .queue target => .obj [("queue", target.toJson)]

def ofJson? : Json → Option Blocking
  | .str "none" => some .none
  | .obj [("none", .null)] => some .none
  | .obj [("queue", target)] => (QueueRef.ofJson? target).map .queue
  | _ => Option.none

end Blocking

/-! ### Items -/

namespace WorkItem

/-- The names of the members of an item, in order. -/
def memberNames : List String :=
  ["id", "shard", "url", "queue_name", "debug_info", "created_at", "last_attempted_at",
   "is_ingested", "internal", "blocking", "external_lock_id_when_complete"]

def toJson (w : WorkItem) : Json :=
  .obj [("id", .int w.id),
    ("shard", w.shard.toJson),
    ("url", .str w.url),
    ("queue_name", .str w.queueName),
    ("debug_info", .ofOption .str w.debugInfo),
    ("created_at", .ofInstant w.createdAt),
    ("last_attempted_at", .ofOption .ofInstant w.lastAttemptedAt),
    ("is_ingested", .bool w.isIngested),
    ("internal", .ofOption .str w.internal),
    ("blocking", w.blocking.toJson),
    ("external_lock_id_when_complete", .ofOption .str w.lockWhenComplete)]

def ofJson? (j : Json) : Option WorkItem := do
  let [id, shard, url, queueName, debugInfo, createdAt, lastAttemptedAt, isIngested, internal,
    blocking, lock] ← j.members? memberNames | none
  return {
    id := ← WorkItemId.ofJson? id
    shard := ← Shard.ofJson? shard
    url := ← url.str?
    queueName := ← queueName.str?
    debugInfo := ← debugInfo.option? Json.str?
    createdAt := ← createdAt.instant?
    lastAttemptedAt := ← lastAttemptedAt.option? Json.instant?
    isIngested := ← isIngested.bool?
    internal := ← internal.option? Json.str?
    blocking := ← Blocking.ofJson? blocking
    lockWhenComplete := ← lock.option? Json.str? }

end WorkItem

namespace CompletedItem

def toJson (c : CompletedItem) : Json :=
  .obj [("item", c.item.toJson), ("completed_at", .ofInstant c.completedAt)]

def ofJson? (j : Json) : Option CompletedItem := do
  let [item, completedAt] ← j.members? ["item", "completed_at"] | none
  return ⟨← WorkItem.ofJson? item, ← completedAt.instant?⟩

end CompletedItem

/-! ### Queues and blocks -/

namespace BlockToken

def toJson (t : BlockToken) : Json :=
  .obj [("work_item_id", .int t.workItemId), ("shard", t.shard.toJson)]

def ofJson? (j : Json) : Option BlockToken := do
  let [id, shard] ← j.members? ["work_item_id", "shard"] | none
  return ⟨← WorkItemId.ofJson? id, ← Shard.ofJson? shard⟩

end BlockToken

namespace QueueState

/-- The names of the members of a queue's state, in order. -/
def memberNames : List String :=
  ["shard", "name", "next_work_item_id", "error_count", "locked_until", "is_paused",
   "external_lock_id", "blocked_by"]

def toJson (q : QueueState) : Json :=
  .obj [("shard", q.shard.toJson),
    ("name", .str q.name),
    ("next_work_item_id", .int q.head),
    ("error_count", .int q.errorCount),
    ("locked_until", .ofInstant q.lockedUntil),
    ("is_paused", .bool q.isPaused),
    ("external_lock_id", .ofOption .str q.externalLock),
    ("blocked_by", .ofList BlockToken.toJson q.blockedBy)]

def ofJson? (j : Json) : Option QueueState := do
  let [shard, name, head, errorCount, lockedUntil, isPaused, lock, blockedBy] ←
    j.members? memberNames | none
  return {
    shard := ← Shard.ofJson? shard
    name := ← name.str?
    head := ← WorkItemId.ofJson? head
    errorCount := ← errorCount.intIn? (.signed 32)
    lockedUntil := ← lockedUntil.instant?
    isPaused := ← isPaused.bool?
    externalLock := ← lock.option? Json.str?
    blockedBy := ← (← blockedBy.arr?).mapM BlockToken.ofJson? }

end QueueState

namespace BlockingMessage

def toJson (m : BlockingMessage) : Json :=
  .obj [("target", m.target.toJson), ("is_creating_block", .bool m.isCreatingBlock),
    ("token", m.token.toJson)]

def ofJson? (j : Json) : Option BlockingMessage := do
  let [target, isCreatingBlock, token] ← j.members? ["target", "is_creating_block", "token"]
    | none
  return ⟨← QueueRef.ofJson? target, ← isCreatingBlock.bool?, ← BlockToken.ofJson? token⟩

end BlockingMessage

/-! ### Scheduled jobs and health -/

namespace JobRecord

def toJson (r : JobRecord) : Json :=
  .obj [("name", .str r.name), ("last_ran_at", .ofInstant r.lastRanAt), ("active", .bool r.active)]

def ofJson? (j : Json) : Option JobRecord := do
  let [name, lastRanAt, active] ← j.members? ["name", "last_ran_at", "active"] | none
  return ⟨← name.str?, ← lastRanAt.instant?, ← active.bool?⟩

end JobRecord

/-- The JSON form of the health of the queues. -/
def QueueHealth.toJson (h : QueueHealth) : Json :=
  .obj [("healthy", .bool h.healthy), ("unhealthy_queues", .int h.unhealthyQueues)]

end Courier
