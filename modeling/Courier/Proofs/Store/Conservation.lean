/-
  Courier/Proofs/Store/Conservation.lean
  ======================================
  **Every number that was given out is accounted for, once.**

  An item is pending until it completes and in the archive until it is purged, and
  no operation drops it on the way or makes a second one of it.  A step of a lane
  adds to the numbers of its items exactly those it uses up (`Lane.Step.ids`); only a
  purge and a clear take numbers away, and `Call.removed` tells which.  Over a whole
  history the pending numbers, the archived ones and the removed ones are therefore
  the numbers from 1 on, each of them once (`Store.ids_after`).
-/
import Courier.Proofs.Store.Fifo
import Mathlib.Data.Int.Range
import Mathlib.Data.List.Flatten
import Mathlib.Data.List.Nodup
import Mathlib.Data.List.Perm.Basic

namespace Courier

open Courier.Time

/-! ### Ranges of numbers -/

theorem nodup_range (low high : Int) : (Int.range low high).Nodup := by
  refine List.Nodup.map ?_ List.nodup_range
  intro a b hab
  have hsame : low + (a : Int) = low + b := hab
  omega

theorem range_self (low : Int) : Int.range low low = [] := by
  simp [Int.range]

theorem range_succ (low : Int) : Int.range low (low + 1) = [low] := by
  simp [Int.range]

theorem range_append {low mid high : Int} (hlow : low ≤ mid) (hhigh : mid ≤ high) :
    (Int.range low mid ++ Int.range mid high).Perm (Int.range low high) := by
  have hnodup : (Int.range low mid ++ Int.range mid high).Nodup := by
    refine List.nodup_append.2 ⟨nodup_range _ _, nodup_range _ _, ?_⟩
    intro a ha b hb
    have hlt := (Int.mem_range_iff.1 ha).2
    have hle := (Int.mem_range_iff.1 hb).1
    omega
  refine (List.perm_ext_iff_of_nodup hnodup (nodup_range _ _)).2 fun id => ?_
  rw [List.mem_append, Int.mem_range_iff, Int.mem_range_iff, Int.mem_range_iff]
  omega

/-! ### The numbers of a lane -/

namespace Lane

variable {sharding : Sharding} {now : Instant} {fresh : WorkItemId} {l l' : Lane} {event : Event}
variable {used : Int} {messages : List BlockingMessage}

/-- The numbers of the items of a lane, pending ones first. -/
def ids (l : Lane) : List WorkItemId := l.items.map (·.id) ++ l.completed.map (·.item.id)

theorem ids_setItem (l : Lane) (item : WorkItem) : (l.setItem item).ids = l.ids := by
  have hsame : (l.items.map fun other => if other.id = item.id then item else other).map (·.id) =
      l.items.map (·.id) := by
    rw [List.map_map]
    refine List.map_congr_left fun other _ => ?_
    dsimp only [Function.comp_apply]
    split
    · rename_i hid
      exact hid.symm
    · rfl
  exact congrArg (· ++ l.completed.map (·.item.id)) hsame

theorem ids_poll (l : Lane) : l.poll.ids = l.ids := by
  unfold ids
  rw [poll_eq]
  show (l.items.map fun item => { item with isIngested := true }).map (·.id) ++ _ = _
  rw [List.map_map]
  rfl

/-- Retiring an item moves its number from the pending ones to the archived ones. -/
theorem ids_retire (h : (l.items.map (·.id)).Nodup) {item : WorkItem} (hi : item ∈ l.items)
    (now : Instant) : (l.retire item now).ids.Perm l.ids := by
  have hapart : (l.items.map (·.id)).Perm
      (item.id :: (l.items.filter (·.id ≠ item.id)).map (·.id)) :=
    (Keyed.perm_cons_filter_ne h hi).map _
  show ((l.items.filter (·.id ≠ item.id)).map (·.id) ++
    (l.completed ++ [(⟨item, now⟩ : CompletedItem)]).map (·.item.id)).Perm _
  unfold ids
  refine List.perm_iff_count.2 fun x => ?_
  have hcount := List.perm_iff_count.1 hapart x
  rw [List.map_append, List.map_singleton]
  simp only [List.count_append, List.count_cons, List.count_nil] at hcount ⊢
  omega

/-- A step other than a purge adds the numbers it uses up, and takes none away. -/
theorem Step.ids (h : l.Step sharding now fresh event l' used messages)
    (hs : l.Sound sharding fresh) (hkept : ∀ shard, event ≠ .purged shard) :
    l'.ids.Perm (l.ids ++ Int.range fresh (fresh + used)) := by
  have hnodup : (l.items.map (·.id)).Nodup := Keyed.nodup_of_sorted hs.sorted
  have hnew : ∀ item : WorkItem, item.id = fresh →
      (l.addItem item).ids.Perm (l.ids ++ Int.range fresh (fresh + 1)) := by
    rintro item rfl
    rw [range_succ]
    show ((l.items ++ [item]).map (·.id) ++ l.completed.map (·.item.id)).Perm
      ((l.items.map (·.id) ++ l.completed.map (·.item.id)) ++ [item.id])
    rw [List.map_append, List.append_assoc, List.append_assoc]
    exact List.perm_append_comm.append_left _
  have hsame : ∀ {ids : List WorkItemId}, ids.Perm l.ids →
      ids.Perm (l.ids ++ Int.range fresh (fresh + 0)) := by
    intro ids hids
    rwa [Int.add_zero, range_self, List.append_nil]
  cases h with
  | file isFor here single => exact hnew _ rfl
  | reserve free => exact hnew _ rfl
  | poll => exact hsame (.of_eq (ids_poll l))
  | claim first head => exact hsame (.of_eq (ids_setItem l _))
  | change fits => exact hsame (.refl _)
  | release row? head deferred => exact hsame (.of_eq (ids_setItem l _))
  | purge => exact absurd rfl (hkept l.shard)
  | advance head free locked successor =>
    exact hsame (ids_retire hnodup (mem_of_head head).1 now)
  | @relay item row head free locked last kept =>
    let placeholder : WorkItem := .placeholder fresh item.queueRef item.blocking now
    have hadded : ((l.addItem placeholder).items.map (·.id)).Nodup := by
      show ((l.items ++ [placeholder]).map (·.id)).Nodup
      rw [List.map_append]
      refine List.nodup_append.2 ⟨hnodup, List.pairwise_singleton _ _, ?_⟩
      intro a ha b hb
      obtain ⟨other, ho, rfl⟩ := List.mem_map.1 ha
      rw [List.mem_singleton.1 hb]
      exact Int.ne_of_lt (hs.below other ho)
    refine (ids_retire hadded ?_ now).trans (hnew placeholder rfl)
    exact List.mem_append_left _ (mem_of_head head).1
  | finish head free unlocked last given =>
    exact hsame (ids_retire hnodup (mem_of_head head).1 now)

end Lane

namespace Store

variable {sharding : Sharding} {s s' : Store} {now : Instant} {event : Event}

/-! ### The numbers of a store -/

/-- The numbers of the pending items of all shards. -/
def pendingIds (s : Store) : List WorkItemId := s.lanes.flatMap fun lane => lane.items.map (·.id)

/-- The numbers of the completed items of all shards. -/
def completedIds (s : Store) : List WorkItemId :=
  s.lanes.flatMap fun lane => lane.completed.map (·.item.id)

/-- The numbers of all items of a store, lane by lane. -/
def ids (s : Store) : List WorkItemId := s.lanes.flatMap Lane.ids

theorem ids_perm (s : Store) : (s.pendingIds ++ s.completedIds).Perm s.ids :=
  List.flatMap_append_perm s.lanes _ _

theorem ids_empty (sharding : Sharding) : (empty sharding).ids = [] := by
  refine List.flatMap_eq_nil_iff.2 fun lane hl => ?_
  obtain ⟨shard, -, rfl⟩ := List.mem_map.1 hl
  rfl

/-- Moves other than a purge and a clear add the numbers they use up, and take none away. -/
theorem Move.ids (hs : s.Sound) (h : Move now s event s') (hkept : ∀ shard, event ≠ .purged shard)
    (hclear : event ≠ .cleared) :
    s'.ids.Perm (s.ids ++ Int.range s.nextId s'.nextId) := by
  cases h with
  | record jobs =>
    rw [range_self, List.append_nil]
    exact .refl _
  | clear => exact absurd rfl hclear
  | @lane lane lane' event used messages mem step =>
    have hall := flatMap_replace hs mem step.shard used messages Lane.ids fun _ => rfl
    have hlane := step.ids (hs.lanes lane mem) hkept
    refine (List.perm_append_right_iff lane.ids).1 (hall.trans ?_)
    calc s.ids ++ lane'.ids
        _ |>.Perm (s.ids ++ (lane.ids ++ Int.range s.nextId (s.nextId + used))) :=
          hlane.append_left _
        _ |>.Perm (s.ids ++ (Int.range s.nextId (s.nextId + used) ++ lane.ids)) :=
          List.perm_append_comm.append_left _
        _ |>.Perm _ := .of_eq (List.append_assoc ..).symm

theorem Moves.ids {events : List Event} (hs : s.Sound) (h : Moves now s events s')
    (hkept : ∀ event ∈ events, ∀ shard, event ≠ .purged shard) (hclear : .cleared ∉ events) :
    s'.ids.Perm (s.ids ++ Int.range s.nextId s'.nextId) := by
  induction h with
  | nil s => rw [range_self, List.append_nil]
  | @cons s mid s' event events move rest ih =>
    have hfirst := move.ids hs (hkept event List.mem_cons_self)
      fun he => hclear (he ▸ List.mem_cons_self)
    have hrest := ih (move.sound hs) (fun other ho => hkept other (List.mem_cons_of_mem _ ho))
      fun he => hclear (List.mem_cons_of_mem _ he)
    have hrange := range_append (move.ascends default).1 (rest.ascends default).1
    calc s'.ids
        _ |>.Perm (mid.ids ++ Int.range mid.nextId s'.nextId) := hrest
        _ |>.Perm _ := hfirst.append_right _
        _ |>.Perm _ := .of_eq (List.append_assoc ..)
        _ |>.Perm _ := hrange.append_left _

/-- What a lane archives is archived. -/
theorem completedIds_replace (hs : s.Sound) {lane lane' : Lane} {used : Int}
    {messages : List BlockingMessage} {done : List CompletedItem} (mem : lane ∈ s.lanes)
    (hshard : lane'.shard = lane.shard) (hcompleted : lane'.completed = lane.completed ++ done) :
    (s.replace lane' used messages).completedIds.Perm
      (s.completedIds ++ done.map (·.item.id)) := by
  let archived (lane : Lane) : List WorkItemId := lane.completed.map (·.item.id)
  have hall := flatMap_replace hs mem hshard used messages archived fun _ => rfl
  have harchived : archived lane' = archived lane ++ done.map (·.item.id) := by
    show lane'.completed.map _ = _
    rw [hcompleted, List.map_append]
  refine (List.perm_append_right_iff (archived lane)).1 (hall.trans ?_)
  calc s.completedIds ++ archived lane'
      _ |>.Perm (s.completedIds ++ (archived lane ++ done.map (·.item.id))) := .of_eq (by rw [harchived])
      _ |>.Perm (s.completedIds ++ (done.map (·.item.id) ++ archived lane)) :=
        List.perm_append_comm.append_left _
      _ |>.Perm _ := .of_eq (List.append_assoc ..).symm

/-! ### What is removed -/

/-- The numbers of the items that a call removes: a purge those archived ones that are gone
    afterwards, a clear all of them. -/
def Call.removed (c : Call sharding) (s : Store) : List WorkItemId :=
  match c.request with
  | .operate (.purge _) => s.completedIds.filter (· ∉ (c.run s).2.completedIds)
  | .operate .clear => s.pendingIds ++ s.completedIds
  | _ => []

theorem purged_sublist (cutoff : Instant) (budget : Nat) (done : List CompletedItem) :
    (purged cutoff budget done).1.Sublist done := by
  induction done generalizing budget with
  | nil => exact .slnil
  | cons first rest ih =>
    unfold purged
    split
    · exact (ih _).cons first
    · exact (ih _).cons_cons first

/-- A purge takes away archived items only, and the others keep their order. -/
theorem purge_ids (hs : s.Sound) (now : Instant) (shard : Shard) :
    (s.purge now shard).2.pendingIds = s.pendingIds ∧
      (s.purge now shard).2.completedIds.Sublist s.completedIds ∧
      (s.purge now shard).2.nextId = s.nextId := by
  unfold purge withLane
  cases hl : s.lane? shard with
  | none => exact ⟨rfl, .refl _, rfl⟩
  | some lane =>
    obtain ⟨hmem, -⟩ := mem_of_lane? hl
    refine ⟨?_, ?_, rfl⟩
    · unfold pendingIds setLane
      rw [List.flatMap_map]
      refine congrArg List.flatten (List.map_congr_left fun other ho => ?_)
      split
      · rename_i hshard
        rw [hs.lane_eq ho hmem hshard]
      · rfl
    · unfold completedIds setLane
      rw [List.flatMap_map]
      refine .flatMap_right _ fun other ho => ?_
      split
      · rename_i hshard
        rw [hs.lane_eq ho hmem hshard]
        exact (purged_sublist _ _ _).map _
      · exact .refl _

theorem perm_of_sublist {ids kept : List WorkItemId} (h : kept.Sublist ids) (hn : ids.Nodup) :
    (kept ++ ids.filter (· ∉ kept)).Perm ids := by
  have hnodup : (kept ++ ids.filter (· ∉ kept)).Nodup := by
    refine List.nodup_append.2 ⟨hn.sublist h, hn.filter _, ?_⟩
    rintro a ha b hb rfl
    exact of_decide_eq_true (List.mem_filter.1 hb).2 ha
  refine (List.perm_ext_iff_of_nodup hnodup hn).2 fun id => ?_
  rw [List.mem_append, List.mem_filter, decide_eq_true_eq]
  constructor
  · rintro (hk | ⟨hid, -⟩)
    · exact h.subset hk
    · exact hid
  · intro hid
    by_cases hk : id ∈ kept
    · exact Or.inl hk
    · exact Or.inr ⟨hid, hk⟩

/-- A call adds the numbers that it uses up, and takes away those that it removes. -/
theorem Call.ids (c : Call sharding) (hs : s.Sound) (hsharding : s.sharding = sharding)
    (hn : s.ids.Nodup) :
    ((c.run s).2.ids ++ c.removed s).Perm
      (s.ids ++ Int.range s.nextId (c.run s).2.nextId) := by
  obtain ⟨events, hmoves, haccounts⟩ := c.traced hs hsharding
  by_cases hpurge : ∃ shard, c.request = .operate (.purge shard)
  · obtain ⟨shard, hc⟩ := hpurge
    have hstate : (c.run s).2 = (s.purge c.clock.storeNow shard).2 := by
      rw [Call.run_operate hc s]
      exact Answer.map_snd _ _
    obtain ⟨hpending, hcompleted, hnext⟩ := purge_ids hs c.clock.storeNow shard
    rw [← hstate] at hpending hcompleted hnext
    have hremoved : c.removed s = s.completedIds.filter (· ∉ (c.run s).2.completedIds) := by
      unfold Call.removed
      rw [hc]
    have harchived : s.completedIds.Nodup :=
      (List.nodup_append.1 (s.ids_perm.nodup_iff.2 hn)).2.1
    rw [hnext, range_self, List.append_nil, hremoved]
    calc (c.run s).2.ids ++ _
        _ |>.Perm ((c.run s).2.pendingIds ++ (c.run s).2.completedIds ++ _) :=
          (c.run s).2.ids_perm.symm.append_right _
        _ |>.Perm _ := .of_eq (List.append_assoc ..)
        _ |>.Perm ((c.run s).2.pendingIds ++ s.completedIds) :=
          (perm_of_sublist hcompleted harchived).append_left _
        _ |>.Perm (s.pendingIds ++ s.completedIds) := .of_eq (hpending ▸ rfl)
        _ |>.Perm s.ids := s.ids_perm
  by_cases hclear : c.request = .operate .clear
  · have hrun : c.run s = (.ok .done, s.clear) := Call.run_operate hclear s
    have hremoved : c.removed s = s.pendingIds ++ s.completedIds := by
      unfold Call.removed
      rw [hclear]
    have hnone : s.clear.ids = [] := by
      refine List.flatMap_eq_nil_iff.2 fun lane hl => ?_
      obtain ⟨old, -, rfl⟩ := List.mem_map.1 hl
      rfl
    rw [hrun, hremoved]
    show (s.clear.ids ++ _).Perm (s.ids ++ Int.range s.nextId s.nextId)
    rw [hnone, range_self, List.append_nil, List.nil_append]
    exact s.ids_perm
  · have hremoved : c.removed s = [] := by
      unfold Call.removed
      split
      · rename_i shard hc
        exact absurd ⟨shard, hc⟩ hpurge
      · rename_i hc
        exact absurd hc hclear
      · rfl
    rw [hremoved, List.append_nil]
    refine hmoves.ids hs ?_ fun he => hclear (haccounts.clears he)
    rintro event he shard rfl
    exact hpurge ⟨shard, haccounts.explained _ he⟩

/-- If the numbers of a store and those that are gone are the numbers given out so far, they are
    so after any history, with those that it removes gone too. -/
theorem ids_after (hs : s.Sound) (hsharding : s.sharding = sharding) (hfirst : 1 ≤ s.nextId)
    {gone : List WorkItemId} (h : (s.ids ++ gone).Perm (Int.range 1 s.nextId))
    (calls : List (Call sharding)) :
    ((s.after calls).ids ++ (gone ++ told Call.removed s calls)).Perm
      (Int.range 1 (s.after calls).nextId) := by
  induction calls generalizing s gone with
  | nil =>
    show (s.ids ++ (gone ++ [])).Perm _
    rwa [List.append_nil]
  | cons c rest ih =>
    obtain ⟨hs', hsharding'⟩ := c.run_sound hs hsharding
    have hle := (ascends_after hs hsharding [c] default).1
    have hn : s.ids.Nodup := (List.nodup_append.1 (h.nodup_iff.2 (nodup_range _ _))).1
    have hcall := c.ids hs hsharding hn
    have hnow : ((c.run s).2.ids ++ (gone ++ c.removed s)).Perm
        (Int.range 1 (c.run s).2.nextId) := by
      refine List.Perm.trans ?_ (range_append hfirst hle)
      refine List.perm_iff_count.2 fun x => ?_
      have hcount := List.perm_iff_count.1 h x
      have hcount' := List.perm_iff_count.1 hcall x
      simp only [List.count_append] at hcount hcount' ⊢
      show _ = _ + (Int.range s.nextId (c.run s).2.nextId).count x
      omega
    have hrest := ih hs' hsharding' (Int.le_trans hfirst hle) hnow
    rw [List.append_assoc] at hrest
    exact hrest

/-- Nothing is held and nothing gone before the first call. -/
theorem ids_start (sharding : Sharding) :
    ((empty sharding).ids ++ []).Perm (Int.range 1 (empty sharding).nextId) := by
  rw [ids_empty]
  exact .of_eq (range_self 1).symm

theorem ids_reached (calls : List (Call sharding)) :
    ((reached calls).ids ++ told Call.removed (empty sharding) calls).Perm
      (Int.range 1 (reached calls).nextId) :=
  ids_after (.empty sharding) rfl (Int.le_refl 1) (ids_start sharding) calls

theorem nodup_ids_reached (calls : List (Call sharding)) : (reached calls).ids.Nodup :=
  (List.nodup_append.1 ((ids_reached calls).nodup_iff.2 (nodup_range _ _))).1

end Store

end Courier
