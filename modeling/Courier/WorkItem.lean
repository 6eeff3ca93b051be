/-
  Courier/WorkItem.lean
  =====================
  **Work items and how they are asked for.**

  A work item is a URL to GET, filed under a queue name.  Callers describe the
  item they want as a `NewItem`; `NewItem.prepare` resolves the queue names to
  their shards and refuses an item without a URL and an item that would block its
  own queue.  `NewItem.prepare_isOk_iff` states exactly when it succeeds and
  `NewItem.not_self_blocking_of_prepare` that no prepared item blocks its own queue name.
-/
import Courier.Error
import Courier.Time.Instant

namespace Courier

open Courier.Time

/-! ### Identity -/

/-- The number of a work item. -/
abbrev WorkItemId := Int

/-- A queue name together with the shard that owns it. -/
structure QueueRef where
  name : String
  shard : Shard
deriving DecidableEq, Repr, Inhabited

namespace QueueRef

/-- The queue of a name in a deployment. -/
def ofName (sharding : Sharding) (name : String) : QueueRef := ⟨name, sharding.shardFor name⟩

/-- The text of a queue, as `orders@3/16`. -/
def text (q : QueueRef) : String := s!"{q.name}@{q.shard.text}"

end QueueRef

/-- What a work item keeps blocked while it is outstanding. -/
inductive Blocking where
  | none
  | queue (target : QueueRef)
deriving DecidableEq, Repr, Inhabited

/-- The queue that is kept blocked, if there is one. -/
def Blocking.target? : Blocking → Option QueueRef
  | .none => Option.none
  | .queue target => some target

/-! ### Items -/

/-- A pending unit of work. -/
structure WorkItem where
  id : WorkItemId
  shard : Shard
  /-- The target of the GET; empty for a placeholder. -/
  url : String
  queueName : String
  debugInfo : Option String
  createdAt : Instant
  lastAttemptedAt : Option Instant
  /-- Whether the item is linked into its queue. -/
  isIngested : Bool
  /-- A payload that is passed through unread. -/
  internal : Option String
  blocking : Blocking
  /-- The lock put on the queue when the item completes. -/
  lockWhenComplete : Option String
deriving DecidableEq, Repr, Inhabited

namespace WorkItem

/-- Whether the item only keeps a paused or locked queue alive.  A placeholder is completed
    without a request. -/
def isPlaceholder (item : WorkItem) : Bool := item.url = ""

/-- The queue the item is filed under. -/
def queueRef (item : WorkItem) : QueueRef := ⟨item.queueName, item.shard⟩

/-- A linked item without URL that keeps a queue alive, holding what the item before it held
    blocked. -/
def placeholder (id : WorkItemId) (queue : QueueRef) (blocking : Blocking) (now : Instant) :
    WorkItem where
  id
  shard := queue.shard
  url := ""
  queueName := queue.name
  debugInfo := some "placeholder"
  createdAt := now
  lastAttemptedAt := none
  isIngested := true
  internal := none
  blocking
  lockWhenComplete := none

end WorkItem

/-- The record of an item that has completed. -/
structure CompletedItem where
  item : WorkItem
  completedAt : Instant
deriving DecidableEq, Repr, Inhabited

/-- What became of an item that was handed in. -/
inductive EnqueueResult where
  | created (id : WorkItemId) (queue : QueueRef)
  /-- An item of the same queue and URL that was never attempted is there already. -/
  | duplicate (existing : WorkItemId) (queue : QueueRef)
deriving DecidableEq, Repr, Inhabited

/-! ### Asking for an item -/

/-- A work item as its sender describes it. -/
structure NewItem where
  url : String
  /-- The queue name; without one the item gets a queue of its own. -/
  queue : Option String := none
  debugInfo : Option String := none
  /-- Do nothing when an item of the same queue and URL that was never attempted is there. -/
  duplicateProtection : Bool := false
  internal : Option String := none
  /-- The queue kept blocked until the item completes. -/
  blocks : Option String := none
  lockWhenComplete : Option String := none
deriving DecidableEq, Repr, Inhabited

/-- A work item ready to be filed. -/
structure PreparedItem where
  url : String
  queue : QueueRef
  debugInfo : Option String
  duplicateProtection : Bool
  internal : Option String
  blocking : Blocking
  lockWhenComplete : Option String
deriving DecidableEq, Repr, Inhabited

namespace NewItem

/-- The queue name of an item, given the name it gets when it has none. -/
def queueName (item : NewItem) (freshName : String) : String := item.queue.getD freshName

/-- Resolves the queue names of an item.  `freshName` is the queue name of an item that names
    none. -/
def prepare (sharding : Sharding) (freshName : String) (item : NewItem) :
    Except Error PreparedItem :=
  if item.url = "" then .error .emptyUrl
  else
    let name := item.queueName freshName
    let prepared (blocking : Blocking) : PreparedItem :=
      { url := item.url
        queue := QueueRef.ofName sharding name
        debugInfo := item.debugInfo
        duplicateProtection := item.duplicateProtection
        internal := item.internal
        blocking
        lockWhenComplete := item.lockWhenComplete }
    match item.blocks with
    | none => .ok (prepared .none)
    | some target =>
      if target = name then .error (.selfBlock name)
      else .ok (prepared (.queue (QueueRef.ofName sharding target)))

/-- An item is prepared exactly when it has a URL and does not block its own queue. -/
theorem prepare_isOk_iff (sharding : Sharding) (freshName : String) (item : NewItem) :
    (item.prepare sharding freshName).isOk = true ↔
      item.url ≠ "" ∧ item.blocks ≠ some (item.queueName freshName) := by
  unfold prepare
  split
  · simp_all [Except.isOk, Except.toBool]
  · rename_i hurl
    cases hb : item.blocks with
    | none => simp [Except.isOk, Except.toBool, hurl]
    | some target =>
      by_cases ht : target = item.queueName freshName
      · simp [ht, Except.isOk, Except.toBool]
      · simp [ht, hurl, Except.isOk, Except.toBool]

/-- A prepared item never blocks its own queue name. -/
theorem not_self_blocking_of_prepare {sharding : Sharding} {freshName : String} {item : NewItem}
    {p : PreparedItem} (h : item.prepare sharding freshName = .ok p) {target : QueueRef}
    (ht : p.blocking = .queue target) : target.name ≠ p.queue.name := by
  unfold prepare at h
  split at h
  · cases h
  · cases hb : item.blocks with
    | none =>
      simp only [hb, Except.ok.injEq] at h
      subst h
      cases ht
    | some t =>
      simp only [hb] at h
      split at h
      · cases h
      · rename_i hne
        simp only [Except.ok.injEq] at h
        subst h
        cases ht
        simpa [QueueRef.ofName] using hne

end NewItem

namespace PreparedItem

/-- The pending item that is filed for a prepared one. -/
def toWorkItem (p : PreparedItem) (id : WorkItemId) (now : Instant) : WorkItem where
  id
  shard := p.queue.shard
  url := p.url
  queueName := p.queue.name
  debugInfo := p.debugInfo
  createdAt := now
  lastAttemptedAt := none
  isIngested := false
  internal := p.internal
  blocking := p.blocking
  lockWhenComplete := p.lockWhenComplete

/-- Whether a pending item makes a prepared one a duplicate. -/
def Duplicates (p : PreparedItem) (item : WorkItem) : Prop :=
  item.queueName = p.queue.name ∧ item.url = p.url ∧ item.lastAttemptedAt = none

instance (p : PreparedItem) (item : WorkItem) : Decidable (p.Duplicates item) :=
  inferInstanceAs (Decidable (_ ∧ _))

end PreparedItem

end Courier
