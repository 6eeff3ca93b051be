/-
  Courier/Proofs/Store/Archive.lean
  =================================
  **What a call archives, and which items it touches.**

  A completion is the only call that archives anything: the item that it settles,
  which is pending before and never again (`Store.Call.archived`).  Settling an item
  touches that item and the row of its queue and no others, and settling one that
  is not the head of its queue touches nothing.  What is pending under a number is
  one item for as long as it is pending (`Store.Call.isPending`).
-/
import Courier.Proofs.Store.Continuity
import Courier.Proofs.Store.Refusal
import Mathlib.Data.List.Count

namespace Courier

open Courier.Time

/-- Whether two items are one item at two moments. -/
structure WorkItem.Is (b a : WorkItem) : Prop where
  id : b.id = a.id
  shard : b.shard = a.shard
  url : b.url = a.url
  queueName : b.queueName = a.queueName

namespace WorkItem.Is

theorem refl (a : WorkItem) : a.Is a := ⟨rfl, rfl, rfl, rfl⟩

theorem trans {a b c : WorkItem} (h : c.Is b) (h' : b.Is a) : c.Is a :=
  ⟨h.id.trans h'.id, h.shard.trans h'.shard, h.url.trans h'.url, h.queueName.trans h'.queueName⟩

theorem attempted (a : WorkItem) (now : Instant) : (a.attempted now).Is a := ⟨rfl, rfl, rfl, rfl⟩

theorem released (a : WorkItem) : a.released.Is a := ⟨rfl, rfl, rfl, rfl⟩

theorem isPlaceholder {a b : WorkItem} (h : b.Is a) : b.isPlaceholder = a.isPlaceholder := by
  unfold WorkItem.isPlaceholder
  rw [h.url]

end WorkItem.Is

/-! ### What a step of a lane does to its items -/

namespace Lane

variable {sharding : Sharding} {now : Instant} {fresh : WorkItemId} {l l' : Lane} {event : Event}
variable {used : Int} {messages : List BlockingMessage} {item b : WorkItem}

theorem is_of_mem_addItem (hb : b ∈ (l.addItem item).items) (hid : item.id = fresh) :
    fresh ≤ b.id ∨ ∃ a ∈ l.items, b.Is a := by
  rcases List.mem_append.1 hb with hold | hnew
  · exact Or.inr ⟨b, hold, .refl b⟩
  · rw [List.mem_singleton.1 hnew]
    exact Or.inl (Int.le_of_eq hid.symm)

theorem is_of_mem_setItem {old new : WorkItem} (h : l.Sound sharding fresh) (ho : old ∈ l.items)
    (hn : new.Is old) (hb : b ∈ (l.setItem new).items) : ∃ a ∈ l.items, b.Is a := by
  obtain ⟨a, ha, rfl⟩ := List.mem_map.1 hb
  refine ⟨a, ha, ?_⟩
  split
  · rename_i hid
    rw [h.item_eq ha ho (hid.trans hn.id)]
    exact hn
  · exact .refl a

/-- What is pending after a step was pending before, or has a new number. -/
theorem Step.isPending (h : l.Step sharding now fresh event l' used messages)
    (hs : l.Sound sharding fresh) (hb : b ∈ l'.items) :
    fresh ≤ b.id ∨ ∃ a ∈ l.items, b.Is a := by
  cases h with
  | file isFor here single => exact is_of_mem_addItem hb rfl
  | reserve free => exact is_of_mem_addItem (l := l) hb rfl
  | poll =>
    rw [items_poll] at hb
    obtain ⟨a, ha, rfl⟩ := mem_items_ingest.1 hb
    exact Or.inr ⟨a, ha, rfl, rfl, rfl, rfl⟩
  | claim first head =>
    exact Or.inr (is_of_mem_setItem (l := l) hs (mem_of_item? head).1 (.attempted _ now) hb)
  | change fits => exact Or.inr ⟨b, hb, .refl b⟩
  | release row? head deferred =>
    exact Or.inr (is_of_mem_setItem hs (mem_of_item? head).1 (.released _) hb)
  | purge => exact Or.inr ⟨b, hb, .refl b⟩
  | advance head free locked successor =>
    exact Or.inr ⟨b, (mem_items_retire.1 hb).1, .refl b⟩
  | relay head free locked last kept =>
    exact is_of_mem_addItem (l := l) (mem_items_retire.1 hb).1 rfl
  | finish head free unlocked last given =>
    exact Or.inr ⟨b, (mem_items_retire.1 hb).1, .refl b⟩

/-- A step other than a purge archives what it retires. -/
theorem Step.completed (h : l.Step sharding now fresh event l' used messages)
    (hkept : ∀ shard, event ≠ .purged shard) :
    l'.completed = l.completed ++ event.retired.map (⟨·, now⟩) := by
  cases h with
  | poll => exact (completed_poll l).trans (List.append_nil _).symm
  | purge => exact absurd rfl (hkept l.shard)
  | advance head free locked successor => rfl
  | relay head free locked last kept => rfl
  | finish head free unlocked last given => rfl
  | _ => exact (List.append_nil _).symm

/-! ### What a settlement leaves alone -/

/-- Whether a lane has all rows and pending items of another one, unchanged, apart from an item and
    the row of its queue. -/
structure Confined (item : WorkItem) (l l' : Lane) : Prop where
  rows : ∀ name, name ≠ item.queueName → l'.row? name = l.row? name
  items : ∀ other ∈ l.items, other.id ≠ item.id → other ∈ l'.items

namespace Confined

variable {l'' : Lane}

theorem refl (item : WorkItem) (l : Lane) : l.Confined item l :=
  ⟨fun _ _ => rfl, fun _ ho _ => ho⟩

theorem trans (h : l.Confined item l') (h' : l'.Confined item l'') : l.Confined item l'' where
  rows name hne := (h'.rows name hne).trans (h.rows name hne)
  items other ho hne := h'.items other (h.items other ho hne) hne

theorem updateRow (item : WorkItem) (l : Lane) {f : Row → Row}
    (hf : ∀ row, (f row).name = row.name) : l.Confined item (l.updateRow item.queueName f) where
  rows name hne := by
    rw [row?_updateRow _ _ _ _ hf, if_neg hne]
  items _ ho _ := ho

theorem removeRow (item : WorkItem) (l : Lane) : l.Confined item (l.removeRow item.queueName) where
  rows name hne := by
    rw [row?_removeRow, if_neg hne]
  items _ ho _ := ho

theorem addItem (item new : WorkItem) (l : Lane) : l.Confined item (l.addItem new) where
  rows _ _ := rfl
  items _ ho _ := List.mem_append_left _ ho

theorem retire (item : WorkItem) (l : Lane) (now : Instant) :
    l.Confined item (l.retire item now) where
  rows _ _ := rfl
  items _ ho hne := mem_items_retire.2 ⟨ho, hne⟩

end Confined

theorem Step.confined (h : l.Step sharding now fresh (.completed item) l' used messages) :
    l.Confined item l' := by
  cases h with
  | advance head free locked successor =>
    apply Confined.trans (.updateRow item l _) (.retire item _ now)
    intro row
    rfl
  | relay head free locked last kept =>
    refine (Confined.addItem item _ l).trans (.trans (.updateRow item _ ?_) (.retire item _ now))
    intro row
    rfl
  | finish head free unlocked last given =>
    exact (Confined.removeRow item l).trans (.retire item _ now)

end Lane

namespace Store

variable {sharding : Sharding} {s s' : Store} {now : Instant} {event : Event}
variable {events : List Event} {b item : WorkItem}

/-! ### What is pending -/

/-- Whether an item is pending on some shard. -/
def IsPending (s : Store) (item : WorkItem) : Prop := ∃ lane ∈ s.lanes, item ∈ lane.items

theorem IsPending.id_lt (h : s.IsPending item) (hs : s.Sound) : item.id < s.nextId := by
  obtain ⟨lane, hl, hi⟩ := h
  exact (hs.lanes lane hl).below item hi

theorem isPending_of_item? {shard : Shard} {id : WorkItemId} (h : s.item? shard id = some item) :
    s.IsPending item ∧ item.id = id := by
  unfold item? at h
  cases hl : s.lane? shard with
  | none =>
    rw [hl] at h
    cases h
  | some lane =>
    rw [hl] at h
    obtain ⟨hi, hid⟩ := Lane.mem_of_item? h
    exact ⟨⟨lane, (mem_of_lane? hl).1, hi⟩, hid⟩

theorem IsPending.mem_pendingIds (h : s.IsPending item) : item.id ∈ s.pendingIds := by
  obtain ⟨lane, hl, hi⟩ := h
  exact List.mem_flatMap.2 ⟨lane, hl, List.mem_map_of_mem hi⟩

theorem IsPending.mem_held (h : s.IsPending item) : item ∈ s.held := by
  obtain ⟨lane, hl, hi⟩ := h
  exact Store.mem_held.2 ⟨lane, hl, Lane.mem_held.2 (Or.inl hi)⟩

theorem mem_pendingIds {id : WorkItemId} (h : id ∈ s.pendingIds) :
    ∃ item, s.IsPending item ∧ item.id = id := by
  obtain ⟨lane, hl, hid⟩ := List.mem_flatMap.1 h
  obtain ⟨item, hi, rfl⟩ := List.mem_map.1 hid
  exact ⟨item, ⟨lane, hl, hi⟩, rfl⟩

theorem Move.isPending (h : Move now s event s') (hs : s.Sound) (hb : s'.IsPending b) :
    s.nextId ≤ b.id ∨ ∃ a, s.IsPending a ∧ b.Is a := by
  obtain ⟨new, hnew, hb⟩ := hb
  cases h with
  | record jobs => exact Or.inr ⟨b, ⟨new, hnew, hb⟩, .refl b⟩
  | clear =>
    obtain ⟨old, -, rfl⟩ := List.mem_map.1 hnew
    cases hb
  | @lane lane lane' event used messages mem step =>
    obtain ⟨old, hold, rfl⟩ := mem_replace.1 hnew
    by_cases hshard : old.shard = lane'.shard
    · rw [if_pos hshard] at hb
      rcases step.isPending (hs.lanes lane mem) hb with hfresh | ⟨a, ha, hsame⟩
      · exact Or.inl hfresh
      · exact Or.inr ⟨a, ⟨lane, mem, ha⟩, hsame⟩
    · rw [if_neg hshard] at hb
      exact Or.inr ⟨b, ⟨old, hold, hb⟩, .refl b⟩

theorem Moves.isPending (h : Moves now s events s') (hs : s.Sound) (hb : s'.IsPending b) :
    s.nextId ≤ b.id ∨ ∃ a, s.IsPending a ∧ b.Is a := by
  induction h with
  | nil s => exact Or.inr ⟨b, hb, .refl b⟩
  | cons move rest ih =>
    have hle := (move.ascends default).1
    rcases ih (move.sound hs) hb with hfresh | ⟨a, ha, hsame⟩
    · exact Or.inl (Int.le_trans hle hfresh)
    · rcases move.isPending hs ha with hfresh | ⟨first, hfirst, hbefore⟩
      · exact Or.inl (hsame.id ▸ hfresh)
      · exact Or.inr ⟨first, hfirst, hsame.trans hbefore⟩

/-- What is pending after a call was pending before, or has a new number. -/
theorem Call.isPending (c : Call sharding) (hs : s.Sound) (hsharding : s.sharding = sharding)
    (hb : (c.run s).2.IsPending b) : s.nextId ≤ b.id ∨ ∃ a, s.IsPending a ∧ b.Is a := by
  obtain ⟨events, hmoves, -⟩ := c.traced hs hsharding
  exact hmoves.isPending hs hb

/-! ### What is archived -/

/-- The completed items of all shards. -/
def archived (s : Store) : List CompletedItem := s.lanes.flatMap (·.completed)

theorem completedIds_eq_archived (s : Store) :
    s.completedIds = s.archived.map (·.item.id) := by
  unfold completedIds archived
  rw [List.map_flatMap]

theorem Move.archived (h : Move now s event s') (hs : s.Sound)
    (hkept : ∀ shard, event ≠ .purged shard) (hclear : event ≠ .cleared) :
    s'.archived.Perm (s.archived ++ event.retired.map (⟨·, now⟩)) := by
  cases h with
  | record jobs => exact .of_eq (List.append_nil _).symm
  | clear => exact absurd rfl hclear
  | @lane lane lane' event used messages mem step =>
    have hall := flatMap_replace hs mem step.shard used messages (·.completed) fun _ => rfl
    refine (List.perm_append_right_iff lane.completed).1 (hall.trans ?_)
    rw [step.completed hkept, ← List.append_assoc, List.append_assoc, List.append_assoc]
    exact List.perm_append_comm.append_left _

theorem Moves.archived (h : Moves now s events s') (hs : s.Sound)
    (hkept : ∀ event ∈ events, ∀ shard, event ≠ .purged shard) (hclear : .cleared ∉ events) :
    s'.archived.Perm (s.archived ++ (events.flatMap (·.retired)).map (⟨·, now⟩)) := by
  induction h with
  | nil s => exact .of_eq (List.append_nil _).symm
  | @cons s mid s' event events move rest ih =>
    have hfirst := move.archived hs (hkept event List.mem_cons_self)
      fun he => hclear (he ▸ List.mem_cons_self)
    have hrest := ih (move.sound hs) (fun other ho => hkept other (List.mem_cons_of_mem _ ho))
      fun he => hclear (List.mem_cons_of_mem _ he)
    refine hrest.trans ((hfirst.append_right _).trans ?_)
    rw [List.flatMap_cons, List.map_append, List.append_assoc]

theorem purge_archived (hs : s.Sound) (now : Instant) (shard : Shard) :
    (s.purge now shard).2.archived.Sublist s.archived := by
  unfold purge withLane
  cases hl : s.lane? shard with
  | none => exact .refl _
  | some lane =>
    obtain ⟨hmem, -⟩ := mem_of_lane? hl
    unfold archived setLane
    rw [List.flatMap_map]
    refine .flatMap_right _ fun other ho => ?_
    split
    · rename_i hshard
      rw [hs.lane_eq ho hmem hshard]
      exact purged_sublist _ _ _
    · exact .refl _

theorem diff_append_of_perm {before after more : List CompletedItem}
    (h : after.Perm (before ++ more)) : (after.diff before).Perm more := by
  refine List.perm_iff_count.2 fun done => ?_
  rw [List.count_diff, List.perm_iff_count.1 h, List.count_append, Nat.add_sub_cancel_left]

theorem diff_of_sublist {before after : List CompletedItem} (h : after.Sublist before) :
    after.diff before = [] := by
  refine List.perm_nil.1 (List.perm_iff_count.2 fun done => ?_)
  rw [List.count_diff, Nat.sub_eq_zero_of_le (h.count_le done), List.count_nil]

/-- A call that removes nothing from the record adds the item that it completes. -/
theorem Call.archived_append {c : Call sharding} (hs : s.Sound) (hsharding : s.sharding = sharding)
    (hpurge : ∀ shard, c.request ≠ .operate (.purge shard))
    (hclear : c.request ≠ .operate .clear) :
    (c.run s).2.archived.Perm
      (s.archived ++ (c.completed s).map (⟨·, c.clock.storeNow⟩)) := by
  obtain ⟨events, hmoves, haccounts⟩ := c.traced hs hsharding
  rw [← haccounts.completed]
  refine hmoves.archived hs ?_ fun he => hclear (haccounts.clears he)
  rintro event he shard rfl
  exact hpurge shard (haccounts.explained _ he)

/-- A call archives the item that it completes, and nothing else. -/
theorem Call.archived (c : Call sharding) (hs : s.Sound) (hsharding : s.sharding = sharding) :
    ((c.run s).2.archived.diff s.archived).Perm
      ((c.completed s).map (⟨·, c.clock.storeNow⟩)) := by
  -- a purge and a reset of the store only shorten the record; the other calls add what they retire
  by_cases hpurge : ∃ shard, c.request = .operate (.purge shard)
  · obtain ⟨shard, hc⟩ := hpurge
    have hstate : (c.run s).2 = (s.purge c.clock.storeNow shard).2 := by
      rw [Call.run_operate hc s]
      exact Answer.map_snd _ _
    have hnone : c.completed s = [] := by
      unfold Call.completed
      rw [hc]
    rw [hnone, hstate, diff_of_sublist (purge_archived hs _ _)]
    exact .refl _
  by_cases hclear : c.request = .operate .clear
  · have hrun : c.run s = (.ok .done, s.clear) := Call.run_operate hclear s
    have hnone : c.completed s = [] := by
      unfold Call.completed
      rw [hclear]
    have hempty : s.clear.archived = [] := by
      refine List.flatMap_eq_nil_iff.2 fun lane hl => ?_
      obtain ⟨old, -, rfl⟩ := List.mem_map.1 hl
      rfl
    rw [hnone, hrun, hempty, List.nil_diff]
    exact .refl _
  · exact diff_append_of_perm
      (archived_append hs hsharding (fun shard hc => hpurge ⟨shard, hc⟩) hclear)

theorem Call.completed_cases (c : Call sharding) (s : Store) :
    c.completed s = [] ∨ ∃ id shard item, c.request = .operate (.complete id shard) ∧
      s.item? shard id = some item ∧ c.completed s = [item] := by
  unfold completed
  split
  · rename_i id shard hc
    split
    · cases hitem : s.item? shard id with
      | none => exact Or.inl rfl
      | some item => exact Or.inr ⟨id, shard, item, hc, hitem, rfl⟩
    · exact Or.inl rfl
  · exact Or.inl rfl

/-- What is completed is pending before, and not afterwards. -/
theorem Call.completed_once (calls : List (Call sharding)) (c : Call sharding) {item : WorkItem}
    (h : item ∈ c.completed (reached calls)) :
    (reached calls).IsPending item ∧ item.id ∉ (reached (calls ++ [c])).pendingIds := by
  obtain ⟨hs, hsharding⟩ := reached_sound calls
  constructor
  · rcases c.completed_cases (reached calls) with hnone | ⟨id, shard, found, -, hfound, hone⟩
    · rw [hnone] at h
      cases h
    · rw [hone, List.mem_singleton] at h
      exact h ▸ (isPending_of_item? hfound).1
  · have hafter : reached (calls ++ [c]) = (c.run (reached calls)).2 := List.foldl_concat ..
    have hentered : (⟨item, c.clock.storeNow⟩ : CompletedItem) ∈
        ((c.run (reached calls)).2.archived.diff (reached calls).archived) :=
      (c.archived hs hsharding).mem_iff.2 (List.mem_map_of_mem h)
    have hdone : item.id ∈ (reached (calls ++ [c])).completedIds := by
      rw [hafter, completedIds_eq_archived]
      exact List.mem_map_of_mem (List.diff_subset _ _ hentered)
    -- no number is pending and completed at once
    have hnodup := nodup_ids_reached (calls ++ [c])
    intro hpending
    exact (List.nodup_append.1 ((ids_perm _).nodup_iff.2 hnodup)).2.2 _ hpending _ hdone rfl

/-! ### What a settlement leaves alone -/

/-- Whether all rows and pending items of a store are still there, unchanged, apart from an item
    and the row of its queue. -/
structure Confined (item : WorkItem) (s s' : Store) : Prop where
  rows : ∀ queue, queue ≠ item.queueRef → s'.row? queue = s.row? queue
  items : ∀ other, s.IsPending other → other.id ≠ item.id → s'.IsPending other

theorem Confined.refl (item : WorkItem) (s : Store) : s.Confined item s :=
  ⟨fun _ _ => rfl, fun _ ho _ => ho⟩

theorem Confined.replace {lane lane' : Lane} {used : Int} {messages : List BlockingMessage}
    (hs : s.Sound) (mem : lane ∈ s.lanes) (hshard : lane'.shard = lane.shard)
    (hat : item.shard = lane.shard) (h : lane.Confined item lane') :
    s.Confined item (s.replace lane' used messages) where
  rows queue hne := by
    unfold row?
    rw [lane?_replace]
    by_cases hhere : queue.shard = lane'.shard
    · have hname : queue.name ≠ item.queueName := by
        intro hname
        apply hne
        unfold WorkItem.queueRef
        rw [← hname, hat, ← hshard, ← hhere]
      rw [if_pos hhere, hhere, hshard, hs.lane?_of_mem mem]
      exact h.rows queue.name hname
    · rw [if_neg hhere]
      cases s.lane? queue.shard <;> rfl
  items := by
    rintro other ⟨old, hold, ho⟩ hne
    refine ⟨_, mem_replace.2 ⟨old, hold, rfl⟩, ?_⟩
    by_cases hhere : old.shard = lane'.shard
    · rw [if_pos hhere]
      rw [hs.lane_eq hold mem (hhere.trans hshard)] at ho
      exact h.items other ho hne
    · rw [if_neg hhere]
      exact ho

/-- A completion touches nothing but the head that it completes and its row. -/
theorem complete_confined (hs : s.Sound) (now : Instant) (id : WorkItemId) (shard : Shard) :
    (s.complete now id shard).2 = s ∨ ∃ item, s.item? shard id = some item ∧
      s.Confined item (s.complete now id shard).2 := by
  rcases complete_spec hs now id shard with ⟨e, hrun⟩ | ⟨lane, item, row, locked, lane', used,
    messages, rfl, h⟩
  · rw [hrun]
    exact Or.inl rfl
  · obtain ⟨hmem, -⟩ := mem_of_lane? h.here
    obtain ⟨hfound, -⟩ := Lane.head_eq_ok_iff.1 h.head
    have hat : item.shard = lane.shard := (hs.lane h.here).here item (Lane.mem_of_head h.head).1
    have hlocked : lane.Confined item locked := by
      rcases h.locks with ⟨-, rfl⟩ | ⟨lock, -, rfl⟩
      · exact .refl item _
      · exact .updateRow item _ (RowChange.name_apply _ now)
    rw [h.run]
    refine Or.inr ⟨item, (item?_of_lane? h.here _).trans hfound, ?_⟩
    exact .replace hs hmem h.shard hat (hlocked.trans h.step.confined)

theorem settleRow_confined (hs : s.Sound) (id : WorkItemId) (shard : Shard) {f : Row → Row}
    (hf : ∀ row, (f row).name = row.name) :
    (s.settleRow id shard f).2 = s ∨ ∃ item, s.item? shard id = some item ∧
      s.Confined item (s.settleRow id shard f).2 := by
  rcases settleRow_cases s id shard f with ⟨e, hrun⟩ | ⟨lane, item, row, hl, hhead, hrun⟩
  · rw [hrun]
    exact Or.inl rfl
  · obtain ⟨hmem, -⟩ := mem_of_lane? hl
    obtain ⟨hfound, -⟩ := Lane.head_eq_ok_iff.1 hhead
    have hat : item.shard = lane.shard := (hs.lane hl).here item (Lane.mem_of_item? hfound).1
    rw [hrun, ← replace_zero_nil]
    refine Or.inr ⟨item, (item?_of_lane? hl _).trans hfound, ?_⟩
    exact .replace hs hmem rfl hat (.updateRow item lane hf)

theorem exists_notHead {shard : Shard} {id : WorkItemId} (hknown : shard ∈ s.sharding.shards)
    (h : ∀ item, s.item? shard id = some item → ¬ s.IsHead ⟨item.queueName, shard⟩ shard id) :
    ∃ missing, s.NotHead shard id (.notFound missing) := by
  cases hitem : s.item? shard id with
  | none => exact ⟨_, Or.inl ⟨hknown, hitem, rfl⟩⟩
  | some item => exact ⟨_, Or.inr ⟨item, hitem, h item hitem, rfl⟩⟩

end Store

end Courier
