/-
  Courier/Store/Claim.lean
  ========================
  **Claiming the next item of a shard.**

  A poll of a shard first links new items into their queues (`Lane.ingest`) and
  applies the mailbox to the blocks (`Lane.drainMailbox`).  Of the queues that are
  claimable it then takes the one that has waited longest (`Lane.candidate?`: the
  least end of lease, and among equals the least head), leases it and hands out
  its head.
-/
import Courier.Store.Basic

namespace Courier

open Courier.Time

namespace Lane

/-! ### Linking new items -/

/-- The rows after an item is linked: a queue without a row gets one headed by the item. -/
def linkRow (rows : List Row) (item : WorkItem) : List Row :=
  if rows.any (·.name = item.queueName) then rows
  else rows ++ [.start item.queueName item.id item.createdAt]

/-- Links every new item into its queue, oldest first. -/
def ingest (l : Lane) : Lane :=
  { l with
    rows := (l.items.filter fun item => !item.isIngested).foldl linkRow l.rows
    items := l.items.map fun item => { item with isIngested := true } }

/-! ### Applying the mailbox -/

/-- Applies one change to the blocks. -/
def applyMessage (l : Lane) (m : BlockingMessage) : Lane :=
  l.setBlockedBy m.target.name (m.change (l.blockedBy m.target.name))

/-- Applies all changes of the mailbox, oldest first, and empties it. -/
def drainMailbox (l : Lane) : Lane :=
  l.mailbox.foldl applyMessage { l with mailbox := [] }

/-- The lane after new items are linked and the mailbox is applied. -/
def poll (l : Lane) : Lane := l.ingest.drainMailbox

/-! ### Choosing a queue -/

/-- Whether the head of a row may be handed out at an instant. -/
def Claimable (l : Lane) (now : Instant) (row : Row) : Prop :=
  row.lockedUntil < now ∧ row.errorCount < greatestErrorCount ∧ row.isPaused = false
    ∧ row.lock = none ∧ l.blockedBy row.name = []

instance (l : Lane) (now : Instant) (row : Row) : Decidable (l.Claimable now row) :=
  inferInstanceAs (Decidable (_ ∧ _))

end Lane

namespace Row

/-- Whether a row has waited longer than another one: its lease ended earlier, or at the same
    instant and it has the lesser head. -/
def Before (a b : Row) : Prop :=
  a.lockedUntil < b.lockedUntil ∨ (a.lockedUntil = b.lockedUntil ∧ a.head < b.head)

instance (a b : Row) : Decidable (a.Before b) := inferInstanceAs (Decidable (_ ∨ _))

/-- The row that has waited longest. -/
def first? : List Row → Option Row
  | [] => none
  | row :: rows =>
    match first? rows with
    | none => some row
    | some other => if other.Before row then some other else some row

end Row

/-- The claimable row that has waited longest. -/
def Lane.candidate? (l : Lane) (now : Instant) : Option Row :=
  Row.first? (l.rows.filter fun row => l.Claimable now row)

/-! ### Claiming -/

/-- Claims the next item of a shard, if any of its queues is claimable. -/
def Store.next (now : Instant) (shard : Shard) (s : Store) : Answer Store (Option WorkItem) :=
  s.withLane shard fun lane =>
    let lane := lane.poll
    match lane.candidate? now with
    | none => (.ok none, s.setLane lane)
    | some row =>
      let lane := lane.updateRow row.name fun r => { r with lockedUntil := now + leaseDuration }
      match lane.item? row.head with
      | none => (.error (.notFound (.headOf row.head row.name)), s.setLane lane)
      | some item =>
        let item := { item with lastAttemptedAt := some now }
        (.ok (some item), s.setLane (lane.setItem item))

end Courier
