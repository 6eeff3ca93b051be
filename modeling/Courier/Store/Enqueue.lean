/-
  Courier/Store/Enqueue.lean
  ==========================
  **Filing work items.**

  A prepared item gets the next number and is added to the lane of its queue's
  shard, not linked into its queue yet.  If it blocks a queue, a message to that
  queue's shard is posted first.  With duplicate protection an item of the same
  queue and URL that was never attempted stands in for the new one, and nothing
  changes.
-/
import Courier.Store.Basic

namespace Courier

open Courier.Time

/-- The oldest pending item that makes a prepared one a duplicate. -/
def Lane.duplicate? (l : Lane) (p : PreparedItem) : Option WorkItem :=
  if p.duplicateProtection then l.items.find? fun item => p.Duplicates item else none

namespace Store

/-- Gives out the next item number. -/
def allocate (s : Store) : WorkItemId × Store := (s.nextId, { s with nextId := s.nextId + 1 })

/-- Posts the message that an item begins to block a queue, if it blocks one. -/
def postBlock (s : Store) (blocking : Blocking) (token : BlockToken) : Answer Store Unit :=
  match blocking with
  | .none => (.ok (), s)
  | .queue target => s.post ⟨target, true, token⟩

/-- Files a prepared item. -/
def insert (now : Instant) (p : PreparedItem) (s : Store) : Answer Store EnqueueResult :=
  s.withLane p.queue.shard fun lane =>
    match lane.duplicate? p with
    | some existing => (.ok (.duplicate existing.id p.queue), s)
    | none =>
      let (id, s) := s.allocate
      match s.postBlock p.blocking ⟨id, p.queue.shard⟩ with
      | (.error e, s) => (.error e, s)
      | (.ok (), s) =>
        (.ok (.created id p.queue),
          s.updateLane p.queue.shard (·.addItem (p.toWorkItem id now)))

/-- Files an item.  `freshName` is the queue name of an item that names none. -/
def enqueue (now : Instant) (freshName : String) (item : NewItem) (s : Store) :
    Answer Store EnqueueResult :=
  match item.prepare s.sharding freshName with
  | .error e => (.error e, s)
  | .ok p => s.insert now p

end Store

end Courier
