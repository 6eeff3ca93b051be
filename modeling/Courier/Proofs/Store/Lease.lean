/-
  Courier/Proofs/Store/Lease.lean
  ===============================
  **A lease is neither shortened nor taken over.**

  A claimed item is leased only by an instant on the row of its queue, which a dozen
  operations rewrite.  `Lane.Leases` says that the item is still the head of its
  queue and that the row is locked at least until an instant.  Every step keeps this
  unless its event gives up the lease of that very queue (`Lane.Step.leases`), so a
  second claim of the queue finds the first one's item, and finds it after the lease
  has ended (`Store.one_item_in_flight`).
-/
import Courier.Proofs.Store.Turnover

namespace Courier

open Courier.Time

/-- Whether an item heads its queue on a lane, and the queue is locked until an instant at
    least. -/
def Lane.Leases (l : Lane) (item : WorkItem) (until_ : Instant) : Prop :=
  ∃ row held, l.row? item.queueName = some row ∧ row.head = item.id ∧ until_ ≤ row.lockedUntil ∧
    held ∈ l.items ∧ held.IsSuccessorOf item

/-- A move that gives up no lease of a queue leaves the head of its row and shortens no lease. -/
theorem RowStep.leases {now until_ : Instant} {queue : QueueRef} {event : Event} {row : Row}
    {after : Option Row} (h : RowStep now queue event (some row) after)
    (hkept : ¬ event.Frees queue) (hle : until_ ≤ row.lockedUntil) :
    ∃ kept, after = some kept ∧ kept.head = row.head ∧ until_ ≤ kept.lockedUntil := by
  cases h with
  | keep apart => exact ⟨row, rfl, rfl, hle⟩
  | lease late untripped =>
    refine ⟨_, rfl, rfl, ?_⟩
    have hearlier : until_ ≤ now := Int.le_of_lt (Int.lt_of_le_of_lt hle late)
    exact Int.le_trans hearlier (le_leased now)
  | change c =>
    refine ⟨_, rfl, c.head_apply now row, ?_⟩
    cases c with
    | reset => exact absurd rfl hkept
    | fail => exact absurd rfl hkept
    | delay => exact absurd rfl hkept
    | _ => exact hle
  | rehead own retired other => exact absurd own hkept
  | remove own retired free => exact absurd own hkept
  | clear => exact absurd trivial hkept

namespace Lane

variable {sharding : Sharding} {now until_ : Instant} {fresh : WorkItemId} {l l' : Lane}
variable {event : Event} {used : Int} {messages : List BlockingMessage} {item : WorkItem}

/-! ### What keeps a lease -/

/-- The head of a row is linked. -/
theorem Sound.linked_of_row? (hs : l.Sound sharding fresh) {name : String} {row : Row}
    {held : WorkItem} (hrow : l.row? name = some row) (hheld : held ∈ l.items)
    (hid : held.id = row.head) : held.isIngested = true := by
  obtain ⟨head, hhead, hheadId, -, hlinked⟩ := hs.head row (mem_of_row? hrow).1
  rw [hs.item_eq hheld hhead (hid.trans hheadId.symm)]
  exact hlinked

theorem Step.mem_of_completed {other : WorkItem}
    (h : l.Step sharding now fresh (.completed other) l' used messages) : other ∈ l.items := by
  cases h with
  | advance head free locked successor => exact (mem_of_head head).1
  | relay head free locked last kept => exact (mem_of_head head).1
  | finish head free unlocked last given => exact (mem_of_head head).1

/-- An item that is linked and not retired is there after a step. -/
theorem Step.item_kept (h : l.Step sharding now fresh event l' used messages)
    (hs : l.Sound sharding fresh) {held : WorkItem} (hheld : held ∈ l.items)
    (hlinked : held.isIngested = true)
    (hunretired : ∀ other, event = .completed other → held.id ≠ other.id) :
    ∃ after ∈ l'.items, after.IsSuccessorOf held := by
  have hset : ∀ {old new : WorkItem}, old ∈ l.items → new.IsSuccessorOf old →
      ∃ after ∈ (l.setItem new).items, after.IsSuccessorOf held := by
    intro old new ho hn
    refine ⟨_, List.mem_map_of_mem hheld, ?_⟩
    split
    · rename_i hid
      rw [hs.item_eq hheld ho (hid.trans hn.id)]
      exact hn
    · exact .refl held
  cases h with
  | file isFor here single => exact ⟨held, List.mem_append_left _ hheld, .refl held⟩
  | reserve free => exact ⟨held, List.mem_append_left _ hheld, .refl held⟩
  | poll =>
    refine ⟨{ held with isIngested := true }, ?_, ?_⟩
    · rw [items_poll]
      exact mem_items_ingest.2 ⟨held, hheld, rfl⟩
    · exact { WorkItem.IsSuccessorOf.refl held with isIngested := hlinked.symm }
  | claim first found => exact hset (mem_of_item? found).1 (.attempted _ now)
  | release row? found deferred => exact hset (mem_of_item? found).1 (.released _)
  | change fits => exact ⟨held, hheld, .refl held⟩
  | purge => exact ⟨held, hheld, .refl held⟩
  | advance head free locked successor =>
    exact ⟨held, mem_items_retire.2 ⟨hheld, hunretired _ rfl⟩, .refl held⟩
  | relay head free locked last kept =>
    refine ⟨held, mem_items_retire.2 ⟨?_, hunretired _ rfl⟩, .refl held⟩
    exact List.mem_append_left _ hheld
  | finish head free unlocked last given =>
    exact ⟨held, mem_items_retire.2 ⟨hheld, hunretired _ rfl⟩, .refl held⟩

/-- A step keeps the lease of every queue but the one it gives up. -/
theorem Step.leases (h : l.Step sharding now fresh event l' used messages)
    (hs : l.Sound sharding fresh) (hshard : item.shard = l.shard)
    (hkept : ¬ event.Frees item.queueRef) (hl : l.Leases item until_) :
    l'.Leases item until_ := by
  obtain ⟨row, held, hrow, hid, hle, hheld, hsame⟩ := hl
  have hlinked : held.isIngested = true :=
    hs.linked_of_row? hrow hheld (hsame.id.trans hid.symm)
  -- an item that is retired is of a queue whose lease is given up
  have hunretired : ∀ other, event = .completed other → held.id ≠ other.id := by
    rintro other rfl hother
    have hsameItem : held = other := hs.item_eq hheld h.mem_of_completed hother
    refine hkept ?_
    show (⟨other.queueName, other.shard⟩ : QueueRef) = ⟨item.queueName, item.shard⟩
    rw [← hsameItem, hsame.queueName, hsame.shard]
  have hqueue : (⟨item.queueName, l.shard⟩ : QueueRef) = item.queueRef := by
    unfold WorkItem.queueRef
    rw [hshard]
  have hstep := h.row? hs item.queueName
  rw [hrow, hqueue] at hstep
  obtain ⟨kept, hafter, hhead, hlater⟩ := hstep.leases hkept hle
  obtain ⟨after, hmem, hnext⟩ := h.item_kept hs hheld hlinked hunretired
  exact ⟨kept, after, hafter, hhead.trans hid, hlater, hmem, hnext.trans hsame⟩

theorem Leases.poll (h : l.Leases item until_) (hs : l.Sound sharding fresh)
    (hshard : item.shard = l.shard) : l.poll.Leases item until_ :=
  Step.leases (Step.poll : l.Step sharding until_ fresh (.polled l.shard) l.poll 0 []) hs hshard id h

end Lane

namespace Store

variable {sharding : Sharding} {s s' : Store} {now until_ : Instant} {event : Event}
variable {item : WorkItem}

/-! ### Leases over a history -/

/-- Whether an item heads its queue, and the queue is locked until an instant at least. -/
def Leases (s : Store) (item : WorkItem) (until_ : Instant) : Prop :=
  ∃ lane, s.lane? item.shard = some lane ∧ lane.Leases item until_

theorem Move.leases (hs : s.Sound) (h : Move now s event s') (hkept : ¬ event.Frees item.queueRef)
    (hl : s.Leases item until_) : s'.Leases item until_ := by
  obtain ⟨held, hheld, hleases⟩ := hl
  obtain ⟨hmem, hshard⟩ := mem_of_lane? hheld
  cases h with
  | record jobs => exact ⟨held, hheld, hleases⟩
  | clear => exact absurd trivial hkept
  | @lane lane lane' event used messages mem step =>
    by_cases hat : lane = held
    · subst hat
      refine ⟨lane'.receive messages, ?_, ?_⟩
      · rw [lane?_replace, if_pos (hshard.symm.trans step.shard.symm), hheld]
        rfl
      · exact step.leases (hs.lanes lane mem) hshard.symm hkept hleases
    · have hne : item.shard ≠ lane'.shard := fun h =>
        hat (hs.lane_eq mem hmem (step.shard.symm.trans (h.symm.trans hshard.symm)))
      refine ⟨held.receive messages, ?_, hleases⟩
      rw [lane?_replace, if_neg hne, hheld]
      rfl

theorem Moves.leases {events : List Event} (hs : s.Sound) (h : Moves now s events s')
    (hkept : ∀ event ∈ events, ¬ event.Frees item.queueRef) (hl : s.Leases item until_) :
    s'.Leases item until_ := by
  induction h with
  | nil s => exact hl
  | cons move _ ih =>
    refine ih (move.sound hs) (fun event he => hkept event (List.mem_cons_of_mem _ he)) ?_
    exact move.leases hs (hkept _ List.mem_cons_self) hl

/-- A history that does not give up the lease of a queue keeps it. -/
theorem leases_after (hs : s.Sound) (hsharding : s.sharding = sharding)
    {calls : List (Call sharding)} (hkept : KeepsLease item.queueRef s calls)
    (hl : s.Leases item until_) : (s.after calls).Leases item until_ := by
  induction calls generalizing s with
  | nil => exact hl
  | cons c rest ih =>
    obtain ⟨events, hmoves, haccounts⟩ := c.traced hs hsharding
    obtain ⟨hs', hsharding'⟩ := c.run_sound hs hsharding
    refine ih hs' hsharding' hkept.2 (hmoves.leases hs ?_ hl)
    exact fun event he hfrees => hkept.1 (haccounts.frees _ event he hfrees)

/-! ### Claims -/

/-- Claiming an item leases it. -/
theorem leases_of_next (hs : s.Sound) {shard : Shard}
    (h : (s.next now shard).1 = .ok (some item)) :
    (s.next now shard).2.Leases item (now + leaseDuration) := by
  obtain ⟨lane, row, head, hl, hpoll, ⟨hr, -, hi, hid, hname, hlane⟩, rfl, hafter⟩ :=
    next_eq_some hs h
  rw [hafter]
  refine ⟨lane.poll.lease now row head, ?_, { row with lockedUntil := now + leaseDuration },
    head.attempted now, ?_, hid.symm, Int.le_refl _, ?_, .refl _⟩
  · have hat : head.shard = shard :=
      hlane.trans ((Lane.shard_poll lane).trans (mem_of_lane? hl).2)
    exact lane?_setLane_self (hat.symm ▸ hl) (Lane.shard_poll lane)
  · refine (Lane.row?_updateRow lane.poll row.name head.queueName
      (fun r => { r with lockedUntil := now + leaseDuration }) fun _ => rfl).trans ?_
    rw [if_pos hname, hname, hpoll.row?_of_mem hr]
    rfl
  · exact List.mem_map.2 ⟨head, hi, if_pos rfl⟩

/-- Claiming a leased queue hands out the leased item, and only after the lease. -/
theorem Leases.next (hl : s.Leases item until_) (hs : s.Sound) {shard : Shard} {again : WorkItem}
    (h : (s.next now shard).1 = .ok (some again)) (hqueue : again.queueRef = item.queueRef) :
    until_ < now ∧ again.IsSuccessorOf item := by
  obtain ⟨lane, row, head, hlane, hpoll, ⟨hr, hclaim, hi, hid, hname, hat⟩, rfl, -⟩ :=
    next_eq_some hs h
  obtain ⟨held, hheld, hleases⟩ := hl
  have hshard : head.shard = item.shard := congrArg QueueRef.shard hqueue
  have hsame : held = lane := by
    rw [← hshard, hat, Lane.shard_poll, (mem_of_lane? hlane).2, hlane] at hheld
    exact (Option.some.inj hheld).symm
  rw [hsame] at hleases
  have hhere : item.shard = lane.shard := hshard.symm.trans (hat.trans (Lane.shard_poll lane))
  obtain ⟨leased, kept, hrow, hhead, hle, hmem, hsucc⟩ := hleases.poll (hs.lane hlane) hhere
  have hrows : leased = row := by
    have hq : item.queueName = row.name := (congrArg QueueRef.name hqueue).symm.trans hname
    rw [hq, hpoll.row?_of_mem hr] at hrow
    exact (Option.some.inj hrow).symm
  have hkept : kept = head :=
    hpoll.item_eq hmem hi (hsucc.id.trans (hhead.symm.trans (hrows ▸ hid.symm)))
  refine ⟨?_, ?_⟩
  · exact Int.lt_of_le_of_lt (hrows ▸ hle) hclaim.1
  · exact WorkItem.IsSuccessorOf.trans (.attempted head now) (hkept ▸ hsucc)

/-- From the claim of an item on, as long as its queue's lease is not given up, the item stays
    the head of the queue and the queue stays locked for the whole lease; a second claim of the
    queue comes after the lease has ended, and of the same item. -/
theorem one_item_in_flight {calls between : List (Call sharding)} {now : Instant} {shard : Shard}
    {item : WorkItem} (hclaimed : ((reached calls).next now shard).1 = .ok (some item))
    (hkept : KeepsLease item.queueRef ((reached calls).next now shard).2 between) :
    (∃ row, (((reached calls).next now shard).2.after between).row? item.queueRef = some row ∧
      row.head = item.id ∧ now + leaseDuration ≤ row.lockedUntil) ∧
    ∀ later again_shard again,
      ((((reached calls).next now shard).2.after between).next later again_shard).1 =
        .ok (some again) →
      again.queueRef = item.queueRef →
      now + leaseDuration < later ∧ again.IsSuccessorOf item := by
  obtain ⟨hs, hsharding⟩ := reached_sound calls
  obtain ⟨events, hmoves, -⟩ := next_idles hs now shard
  have hs₁ := hmoves.sound hs
  have hsharding₁ := hmoves.sharding.trans hsharding
  have hleases := leases_after hs₁ hsharding₁ hkept (leases_of_next hs hclaimed)
  have hs₂ : (((reached calls).next now shard).2.after between).Sound :=
    after_keeps (P := Store.Sound) (fun hs move _ => move.sound hs) hs₁ hsharding₁ hs₁ between
  refine ⟨?_, ?_⟩
  · obtain ⟨lane, hlane, row, held, hrow, hhead, hle, -, -⟩ := hleases
    refine ⟨row, ?_, hhead, hle⟩
    show (Store.lane? _ item.shard).bind _ = _
    rw [hlane]
    exact hrow
  · intro later again_shard again hagain hqueue
    exact hleases.next hs₂ hagain hqueue

/-- An item is filed. -/
def oneFiled : List (Call .single) :=
  [⟨{ origin := ⟨10⟩ }, .operate (.enqueue "" { url := "http://a/1", queue := some "orders" })⟩]

/-- Its queue is paused and resumed, and another item is filed. -/
def pausedMeanwhile : List (Call .single) :=
  [⟨{ origin := ⟨12⟩ }, .operate (.pause ⟨"orders", ⟨0, 1⟩⟩)⟩,
   ⟨{ origin := ⟨13⟩ }, .operate (.enqueue "" { url := "http://a/2", queue := some "orders" })⟩,
   ⟨{ origin := ⟨14⟩ }, .operate (.resume ⟨"orders", ⟨0, 1⟩⟩)⟩]

/-- The item as it is handed out at an instant. -/
def handedOut (now : Instant) : WorkItem where
  id := 1
  shard := ⟨0, 1⟩
  url := "http://a/1"
  queueName := "orders"
  debugInfo := none
  createdAt := ⟨10⟩
  lastAttemptedAt := some now
  isIngested := true
  internal := none
  blocking := .none
  lockWhenComplete := none

theorem one_item_in_flight_over_a_pause :
    ((reached oneFiled).next ⟨11⟩ ⟨0, 1⟩).1 = .ok (some (handedOut ⟨11⟩)) ∧
      KeepsLease ⟨"orders", ⟨0, 1⟩⟩ ((reached oneFiled).next ⟨11⟩ ⟨0, 1⟩).2 pausedMeanwhile ∧
      ((((reached oneFiled).next ⟨11⟩ ⟨0, 1⟩).2.after pausedMeanwhile).next ⟨3600000000012⟩
        ⟨0, 1⟩).1 = .ok (some (handedOut ⟨3600000000012⟩)) ∧
      (⟨11⟩ : Instant) + leaseDuration < ⟨3600000000012⟩ ∧
      (handedOut ⟨3600000000012⟩).IsSuccessorOf (handedOut ⟨11⟩) := by
  have hclaimed : ((reached oneFiled).next ⟨11⟩ ⟨0, 1⟩).1 = .ok (some (handedOut ⟨11⟩)) := rfl
  have hkept : KeepsLease (handedOut ⟨11⟩).queueRef ((reached oneFiled).next ⟨11⟩ ⟨0, 1⟩).2
      pausedMeanwhile := ⟨not_false, not_false, not_false, trivial⟩
  have hagain : ((((reached oneFiled).next ⟨11⟩ ⟨0, 1⟩).2.after pausedMeanwhile).next
      ⟨3600000000012⟩ ⟨0, 1⟩).1 = .ok (some (handedOut ⟨3600000000012⟩)) := rfl
  exact ⟨hclaimed, hkept, hagain, (one_item_in_flight hclaimed hkept).2 _ _ _ hagain rfl⟩

end Store

end Courier
