/-
  Courier/Proofs/Store/Completion.lean
  ====================================
  **Settling an item, move by move.**

  Whatever the effects of a completion are, carrying them out is a move that retires
  the head of a queue, after the deferred lock was put on it if there is one
  (`Store.complete_cases`).  Failing and delaying change the row of which the item is
  the head, or nothing (`Store.settleRow_cases`).
-/
import Courier.Proofs.Store.Operations

namespace Courier

open Courier.Time

namespace Store

variable {s : Store} {now : Instant} {lane : Lane}

/-! ### Heads -/

theorem isHead_of_head (hs : s.Sound) {shard : Shard} {id : WorkItemId} {item : WorkItem}
    {row : Row} (hl : s.lane? shard = some lane) (hhead : lane.head id = .ok (item, row)) :
    item.id = id ∧ item.queueRef = ⟨item.queueName, lane.shard⟩ ∧
      s.IsHead item.queueRef shard id := by
  obtain ⟨hfound, hrow, hid⟩ := Lane.head_eq_ok_iff.1 hhead
  obtain ⟨hitem, hitemId⟩ := Lane.mem_of_item? hfound
  have hat : item.shard = lane.shard := (hs.lane hl).here item hitem
  have hshard : item.shard = shard := hat.trans (mem_of_lane? hl).2
  refine ⟨hitemId, ?_, hshard, ?_⟩
  · unfold WorkItem.queueRef
    rw [hat]
  · show ((s.lane? item.shard).bind (·.row? item.queueName)).map _ = _
    rw [hshard, hl, Option.bind_some, hrow, Option.map_some, hid]

/-- What is settled but not completed has its row changed, if it is the head of its queue. -/
theorem settleRow_cases (s : Store) (id : WorkItemId) (shard : Shard) (f : Row → Row) :
    (∃ e, s.settleRow id shard f = (.error e, s)) ∨
    ∃ lane item row, s.lane? shard = some lane ∧ lane.head id = .ok (item, row) ∧
      s.settleRow id shard f = (.ok (), s.setLane (lane.updateRow item.queueName f)) := by
  unfold settleRow withLane
  cases hl : s.lane? shard with
  | none => exact Or.inl ⟨_, rfl⟩
  | some lane =>
    dsimp only
    cases hhead : lane.head id with
    | error e => exact Or.inl ⟨e, rfl⟩
    | ok found => exact Or.inr ⟨lane, found.1, found.2, rfl, hhead, rfl⟩

/-- The effects with which every completion ends. -/
def retireEffects (lane : Lane) (item : WorkItem) (now : Instant) : List Effect :=
  .removeItem lane.shard item.id :: blockEffects item.blocking false ⟨item.id, lane.shard⟩
    ++ [.archive lane.shard ⟨item, now⟩]

section IsAt

variable {item : WorkItem} (hs : s.Sound) (mem : lane ∈ s.lanes) (hitem : item ∈ lane.items)

include hs mem hitem

theorem isAt_of_mem_advanceEffects {keepAlive : Bool} :
    ∀ effect ∈ s.advanceEffects lane now item keepAlive,
      effect.IsAt lane.shard (s.lanes.map (·.shard)) := by
  have hat : item.shard = lane.shard := (hs.lanes lane mem).here item hitem
  intro effect he
  unfold advanceEffects at he
  split at he
  · rw [List.mem_singleton.1 he]
    exact hat
  · split at he
    · rcases List.mem_append.1 he with he | he
      · rcases List.mem_cons.1 he with rfl | he
        · exact hat
        · exact isAt_of_mem_blockEffects (hs.known_target mem hitem) effect he
      · rw [List.mem_singleton.1 he]
        exact hat
    · rw [List.mem_singleton.1 he]
      exact hat

theorem isAt_of_mem_retireEffects :
    ∀ effect ∈ retireEffects lane item now,
      effect.IsAt lane.shard (s.lanes.map (·.shard)) := by
  intro effect he
  rcases List.mem_append.1 he with he | he
  · rcases List.mem_cons.1 he with rfl | he
    · exact rfl
    · exact isAt_of_mem_blockEffects (hs.known_target mem hitem) effect he
  · rw [List.mem_singleton.1 he]
    exact rfl

end IsAt

/-- Retiring an item, after other effects on its lane, is one replacement of the lane. -/
theorem perform_retireEffects (hs : s.Sound) (mem : lane ∈ s.lanes) {item : WorkItem}
    (hitem : item ∈ lane.items) {before : List Effect}
    (hat : ∀ effect ∈ before, effect.IsAt lane.shard (s.lanes.map (·.shard))) (now : Instant) :
    s.perform (before ++ retireEffects lane item now) =
      (.ok (), s.replace ((before.foldl (fun l effect => effect.onLane l) lane).retire item now)
        (before.foldl (fun n effect => n + effect.used) 0)
        (before.flatMap Effect.messages ++
          item.blocking.messages false ⟨item.id, lane.shard⟩)) := by
  have hall : ∀ effect ∈ before ++ retireEffects lane item now,
      effect.IsAt lane.shard (s.lanes.map (·.shard)) := by
    intro effect he
    rcases List.mem_append.1 he with he | he
    · exact hat effect he
    · exact isAt_of_mem_retireEffects hs mem hitem effect he
  have hstart : s.replace lane 0 [] = s := by rw [replace_zero_nil, hs.setLane_self mem]
  have hrun := perform_replace hs.nodup 0 [] hall
  rw [hstart] at hrun
  rw [hrun]
  have hremove : (Effect.removeItem lane.shard item.id).used = 0 := rfl
  have harchive : (Effect.archive lane.shard ⟨item, now⟩).used = 0 := rfl
  simp only [retireEffects, List.foldl_append, List.foldl_cons, List.foldl_nil,
    List.flatMap_append, List.flatMap_cons, List.flatMap_nil, onLane_blockEffects,
    used_blockEffects, messages_blockEffects, Effect.messages, hremove, harchive, Int.add_zero,
    List.nil_append, List.append_nil]
  rfl

/-- The effects of moving a queue on and retiring its head come to one step of the lane. -/
theorem perform_completion (hs : s.Sound) (mem : lane ∈ s.lanes) {item : WorkItem} {row : Row}
    (head : lane.head item.id = .ok (item, row)) (free : lane.blockedBy item.queueName = [])
    (locked : ∀ lock, item.lockWhenComplete = some lock → row.lock = some lock) (now : Instant) :
    ∃ lane' used messages,
      lane.Step s.sharding now s.nextId (.completed item) lane' used messages ∧
      s.perform (s.advanceEffects lane now item (row.isPaused || row.lock.isSome) ++
        retireEffects lane item now) = (.ok (), s.replace lane' used messages) := by
  obtain ⟨hitem, -⟩ := Lane.mem_of_head head
  have hat : item.shard = lane.shard := (hs.lanes lane mem).here item hitem
  rw [perform_retireEffects hs mem hitem (isAt_of_mem_advanceEffects hs mem hitem) now]
  unfold advanceEffects
  cases hnext : lane.successor? item.queueName item.id with
  | some next => exact ⟨_, _, _, .advance head free locked hnext, rfl⟩
  | none =>
    dsimp only
    cases hkept : row.isPaused || row.lock.isSome with
    | true =>
      refine ⟨_, _, _, .relay head free locked hnext (by simpa using hkept), ?_⟩
      simp only [if_true, List.foldl_append, List.foldl_cons, List.foldl_nil,
        List.flatMap_append, List.flatMap_cons, List.flatMap_nil, onLane_blockEffects,
        used_blockEffects, messages_blockEffects, Effect.messages, List.nil_append,
        List.append_nil]
      rw [show item.queueRef.shard = lane.shard from hat]
      rfl
    | false =>
      have hgiven : row.isPaused = false ∧ row.lock = none := by simpa using hkept
      have hunlocked : item.lockWhenComplete = none := by
        cases hlock : item.lockWhenComplete with
        | none => rfl
        | some lock =>
          have hheld := locked lock hlock
          rw [hgiven.2] at hheld
          cases hheld
      exact ⟨_, _, _, .finish head free hunlocked hnext hgiven, rfl⟩

/-- Whether a lane is another one after the lock that an item puts on its queue was put on, if it
    puts one. -/
def Locks (lane : Lane) (now : Instant) (item : WorkItem) (locked : Lane) : Prop :=
  (item.lockWhenComplete = none ∧ locked = lane) ∨ ∃ lock, item.lockWhenComplete = some lock ∧
    locked = lane.updateRow item.queueName ((RowChange.putLock lock).apply now)

theorem Locks.shard {item : WorkItem} {locked : Lane} (h : Locks lane now item locked) :
    locked.shard = lane.shard := by
  rcases h with ⟨-, rfl⟩ | ⟨lock, -, rfl⟩ <;> rfl

theorem Locks.items {item : WorkItem} {locked : Lane} (h : Locks lane now item locked) :
    locked.items = lane.items := by
  rcases h with ⟨-, rfl⟩ | ⟨lock, -, rfl⟩ <;> rfl

theorem Locks.sound {item : WorkItem} {locked : Lane} (h : Locks lane now item locked)
    {sharding : Sharding} {bound : WorkItemId} (hs : lane.Sound sharding bound) :
    locked.Sound sharding bound := by
  rcases h with ⟨-, rfl⟩ | ⟨lock, -, rfl⟩
  · exact hs
  · exact hs.updateRow _ (RowChange.name_apply _ now) (RowChange.head_apply _ now)

/-- The row of the queue has the lock of the item, or the lock that it had. -/
theorem Locks.row? {item : WorkItem} {row : Row} {locked : Lane} (h : Locks lane now item locked)
    (hrow : lane.row? item.queueName = some row) :
    ∃ put, locked.row? item.queueName = some put ∧ put.isPaused = row.isPaused ∧
      put.lock = item.lockWhenComplete.or row.lock := by
  rcases h with ⟨hnone, rfl⟩ | ⟨lock, hsome, rfl⟩
  · refine ⟨row, hrow, rfl, ?_⟩
    rw [hnone, Option.none_or]
  · refine ⟨(RowChange.putLock lock).apply now row, ?_, rfl, ?_⟩
    · rw [Lane.row?_updateRow _ _ _ _ (RowChange.name_apply _ now), if_pos rfl, hrow]
      rfl
    · rw [hsome]
      rfl

/-- The effects of a completion that first puts a deferred lock on the queue. -/
theorem perform_locked_completion (hs : s.Sound) (mem : lane ∈ s.lanes) {item : WorkItem}
    {row : Row} {lock : String} (head : lane.head item.id = .ok (item, row))
    (free : lane.blockedBy item.queueName = []) (hlock : item.lockWhenComplete = some lock)
    (fits : row.lock = none ∨ row.lock = some lock) (now : Instant) :
    ∃ locked lane' used messages, Locks lane now item locked ∧
      Move now s (.changed ⟨item.queueName, lane.shard⟩ (.putLock lock)) (s.setLane locked) ∧
      locked.Step s.sharding now s.nextId (.completed item) lane' used messages ∧
      s.perform (.putLock item.queueRef lock :: s.advanceEffects lane now item true ++
        retireEffects lane item now) = (.ok (), s.replace lane' used messages) := by
  obtain ⟨hfound, hrow, hid⟩ := Lane.head_eq_ok_iff.1 head
  have hat : item.queueRef.shard = lane.shard :=
    (hs.lanes lane mem).here item (Lane.mem_of_item? hfound).1
  let locked : Lane := lane.updateRow item.queueName ((RowChange.putLock lock).apply now)
  have hmove : Move now s (.changed ⟨item.queueName, lane.shard⟩ (.putLock lock))
      (s.setLane locked) := by
    refine Move.updateRow mem ?_
    intro other hother
    rw [hrow, Option.some.injEq] at hother
    exact hother ▸ fits
  have hhead : locked.head item.id = .ok (item, { row with lock := some lock }) := by
    refine Lane.head_eq_ok_iff.2 ⟨hfound, ?_, hid⟩
    rw [Lane.row?_updateRow _ _ _ _ (RowChange.name_apply _ now), if_pos rfl, hrow]
    rfl
  have hput : (Effect.putLock item.queueRef lock).apply s = (.ok (), s.setLane locked) := by
    refine congrArg (Prod.mk _) ?_
    rw [hat]
    exact hs.updateLane_eq mem rfl
  have hmem : locked ∈ (s.setLane locked).lanes := mem_setLane mem rfl
  obtain ⟨lane', used, messages, step, hrun⟩ := perform_completion (hmove.sound hs) hmem hhead free
    (fun other hother => hother ▸ hlock.symm) now
  refine ⟨locked, lane', used, messages, Or.inr ⟨lock, hlock, rfl⟩, hmove, step, ?_⟩
  rw [Option.isSome_some, Bool.or_true, replace_setLane s step.shard.symm] at hrun
  rw [List.cons_append]
  unfold perform
  rw [hput]
  exact hrun

/-- The head of a queue that nothing blocks is completed, unless the queue is under another lock
    than the one that the item puts on it. -/
theorem complete_head (hs : s.Sound) {shard : Shard} {item : WorkItem} {row : Row}
    (hl : s.lane? shard = some lane) (hhead : lane.head item.id = .ok (item, row))
    (hfree : lane.blockedBy item.queueName = [])
    (hfits : ∀ lock, item.lockWhenComplete = some lock → row.lock = none ∨ row.lock = some lock)
    (now : Instant) :
    ∃ locked lane' used messages, Locks lane now item locked ∧
      locked.Step s.sharding now s.nextId (.completed item) lane' used messages ∧
      s.complete now item.id shard = (.ok (), s.replace lane' used messages) ∧
      ∃ before, Moves now s (before ++ [.completed item]) (s.replace lane' used messages) ∧
        ∀ event ∈ before, event.Idle := by
  obtain ⟨hmem, -⟩ := mem_of_lane? hl
  unfold complete withLane
  rw [hl]
  dsimp only
  unfold completion
  rw [hhead]
  dsimp only
  rw [if_neg fun h => h hfree]
  cases hlock : item.lockWhenComplete with
  | none =>
    obtain ⟨lane', used, messages, step, hrun⟩ := perform_completion hs hmem hhead hfree
      (fun lock h => by rw [hlock] at h; cases h) now
    exact ⟨lane, lane', used, messages, Or.inl ⟨hlock, rfl⟩, step, hrun, [],
      .single (Move.lane hmem step), fun event he => by cases he⟩
  | some lock =>
    obtain ⟨locked, lane', used, messages, hlocks, hmove, step, hrun⟩ :=
      perform_locked_completion hs hmem hhead hfree hlock (hfits lock hlock) now
    refine ⟨locked, lane', used, messages, hlocks, step, ?_, [_], .cons hmove (.single ?_), ?_⟩
    · rcases hfits lock hlock with hnone | hheld
      · rw [hnone]
        exact hrun
      · rw [hheld]
        dsimp only
        rw [if_pos rfl]
        exact hrun
    · have hlast := Move.lane (mem_setLane hmem hlocks.shard) step
      rwa [replace_setLane s step.shard.symm] at hlast
    · intro event he
      rw [List.mem_singleton.1 he]
      trivial

/-- A completion that succeeds retires the head of a queue that nothing blocks. -/
theorem complete_cases (hs : s.Sound) (now : Instant) (id : WorkItemId) (shard : Shard) :
    (∃ e, s.complete now id shard = (.error e, s)) ∨
    ∃ lane item row before s', s.lane? shard = some lane ∧ lane.head id = .ok (item, row) ∧
      s.complete now id shard = (.ok (), s') ∧ Moves now s (before ++ [.completed item]) s' ∧
      ∀ event ∈ before, event.Idle := by
  cases hl : s.lane? shard with
  | none =>
    unfold complete withLane
    rw [hl]
    exact Or.inl ⟨_, rfl⟩
  | some lane =>
    cases hhead : lane.head id with
    | error e =>
      unfold complete withLane
      rw [hl]
      dsimp only
      unfold completion
      rw [hhead]
      exact Or.inl ⟨e, rfl⟩
    | ok found =>
      obtain ⟨item, row⟩ := found
      obtain ⟨hid, -⟩ := isHead_of_head hs hl hhead
      subst hid
      by_cases hfree : lane.blockedBy item.queueName = []
      · by_cases hother : ∃ lock held, item.lockWhenComplete = some lock ∧
            row.lock = some held ∧ held ≠ lock
        · obtain ⟨lock, held, hlock, hheld, hne⟩ := hother
          unfold complete withLane
          rw [hl]
          dsimp only
          unfold completion
          rw [hhead]
          dsimp only
          rw [if_neg fun h => h hfree, hlock, hheld]
          dsimp only
          rw [if_neg hne]
          exact Or.inl ⟨_, rfl⟩
        · have hfits : ∀ lock, item.lockWhenComplete = some lock →
              row.lock = none ∨ row.lock = some lock := by
            intro lock hlock
            cases hheld : row.lock with
            | none => exact Or.inl rfl
            | some held =>
              by_cases hsame : held = lock
              · exact Or.inr (hsame ▸ rfl)
              · exact absurd ⟨lock, held, hlock, hheld, hsame⟩ hother
          obtain ⟨_, lane', used, messages, -, -, hrun, before, hmoves, hidle⟩ :=
            complete_head hs hl hhead hfree hfits now
          exact Or.inr ⟨lane, item, row, before, _, rfl, hhead, hrun, hmoves, hidle⟩
      · unfold complete withLane
        rw [hl]
        dsimp only
        unfold completion
        rw [hhead]
        dsimp only
        rw [if_pos hfree]
        exact Or.inl ⟨_, rfl⟩

end Store

end Courier
