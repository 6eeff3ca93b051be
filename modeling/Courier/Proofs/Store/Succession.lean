/-
  Courier/Proofs/Store/Succession.lean
  ====================================
  **How a queue moves on when its head completes.**

  The head makes way for the next linked item, for a placeholder that keeps the
  queue alive, or for nobody, in which case the row goes too.  In each case the
  row and the item change together, and the lane is sound again afterwards:
  `Lane.Sound.advance`, `Lane.Sound.relay`, `Lane.Sound.finish`.
-/
import Courier.Proofs.Store.Sound

namespace Courier

open Courier.Time

/-- A row whose queue moved on to another head. -/
def Row.rehead (row : Row) (head : WorkItemId) (lockedUntil : Instant) : Row :=
  { row with head, lockedUntil, errorCount := 0 }

namespace Lane

/-- A lane after a completed item was moved into the archive. -/
def retire (l : Lane) (item : WorkItem) (now : Instant) : Lane :=
  { l.removeItem item.id with completed := l.completed ++ [⟨item, now⟩] }

theorem mem_items_retire {l : Lane} {item other : WorkItem} {now : Instant} :
    other ∈ (l.retire item now).items ↔ other ∈ l.items ∧ other.id ≠ item.id := by
  unfold retire removeItem
  rw [List.mem_filter, decide_eq_true_eq]

variable {sharding : Sharding} {bound : WorkItemId} {l : Lane} {item next : WorkItem} {row : Row}

/-! ### The head and its successor -/

section Head

variable (h : l.Sound sharding bound) (hhead : l.head item.id = .ok (item, row))

include hhead in
theorem mem_of_head : item ∈ l.items ∧ row ∈ l.rows ∧ row.name = item.queueName ∧
    row.head = item.id := by
  obtain ⟨hi, hr, hid⟩ := head_eq_ok_iff.1 hhead
  exact ⟨(mem_of_item? hi).1, (mem_of_row? hr).1, (mem_of_row? hr).2, hid⟩

include h hhead in
/-- The only placeholder of a queue is its head. -/
theorem Sound.placeholder_eq_head {other : WorkItem} (ho : other ∈ l.items)
    (hname : other.queueName = item.queueName) (hplace : other.isPlaceholder = true) :
    other.id = item.id := by
  obtain ⟨-, hr, hrow, hid⟩ := mem_of_head hhead
  obtain ⟨held, hheld, hn, hh⟩ := h.placeholder other ho hplace
  rw [← hh, h.row_eq hheld hr (hn.trans (hname.trans hrow.symm)), hid]

include h hhead in
/-- An item of another queue is not the head of this one. -/
theorem Sound.id_ne_head {other : WorkItem} (ho : other ∈ l.items)
    (hname : other.queueName ≠ item.queueName) : other.id ≠ item.id :=
  fun hid => hname (by rw [h.item_eq ho (mem_of_head hhead).1 hid])

theorem successor?_spec (hs : l.successor? item.queueName item.id = some next) :
    next ∈ l.items ∧ next.queueName = item.queueName ∧ next.isIngested = true ∧
      next.id ≠ item.id :=
  ⟨List.mem_of_find?_eq_some hs, by simpa using List.find?_some hs⟩

include h hhead in
/-- The successor of a head is the oldest item of the queue besides the head. -/
theorem Sound.successor_le (hs : l.successor? item.queueName item.id = some next)
    {other : WorkItem} (ho : other ∈ l.items) (hname : other.queueName = item.queueName)
    (hid : other.id ≠ item.id) : next.id ≤ other.id := by
  obtain ⟨hn, hnname, hlinked, hnid⟩ := successor?_spec hs
  cases hother : other.isIngested with
  | true =>
    exact Keyed.find?_le_of_sorted h.sorted hs ho (by simp [hname, hother, hid])
  | false =>
    -- a successor that were a placeholder would be the head itself
    have hreal : next.isPlaceholder = false := by
      cases hplace : next.isPlaceholder with
      | false => rfl
      | true => exact absurd (h.placeholder_eq_head hhead hn hnname hplace) hnid
    exact Int.le_of_lt (h.linkedFirst next hn other ho hlinked hreal hother)

theorem unlinked_of_successor? (hs : l.successor? item.queueName item.id = none)
    {other : WorkItem} (ho : other ∈ l.items) (hname : other.queueName = item.queueName)
    (hid : other.id ≠ item.id) : other.isIngested = false := by
  have hnot := List.find?_eq_none.1 hs other ho
  simpa [hname, hid] using hnot

end Head

/-! ### The next linked item takes over -/

/-- A queue that moves on to its next linked item keeps its lane sound. -/
theorem Sound.advance (h : l.Sound sharding bound) (hhead : l.head item.id = .ok (item, row))
    (hs : l.successor? item.queueName item.id = some next) (now : Instant) :
    ((l.updateRow item.queueName (·.rehead next.id next.createdAt)).retire item now).Sound
      sharding bound := by
  obtain ⟨hi, hr, hrow, hid⟩ := mem_of_head hhead
  obtain ⟨hn, hnname, hlinked, hnid⟩ := successor?_spec hs
  have hrows : ∀ changed : Row,
      changed ∈ ((l.updateRow item.queueName (·.rehead next.id next.createdAt)).retire item
        now).rows →
      ∃ old ∈ l.rows, (if old.name = item.queueName then old.rehead next.id next.createdAt
        else old) = changed := fun changed hc => List.mem_map.1 hc
  constructor
  case sorted => exact h.sorted.filter _
  case below => exact fun other ho => h.below other (mem_items_retire.1 ho).1
  case here => exact fun other ho => h.here other (mem_items_retire.1 ho).1
  case targets => exact fun other ho => h.targets other (mem_items_retire.1 ho).1
  case names =>
    have hsame := names_updateRow l item.queueName
      (f := (·.rehead next.id next.createdAt)) fun _ => rfl
    exact hsame ▸ h.names
  case head =>
    intro changed hc
    obtain ⟨old, ho, rfl⟩ := hrows changed hc
    split
    · rename_i hq
      exact ⟨next, mem_items_retire.2 ⟨hn, hnid⟩, rfl, hnname.trans hq.symm, hlinked⟩
    · rename_i hq
      obtain ⟨first, hf, hfid, hfname, hfl⟩ := h.head old ho
      have hne := h.id_ne_head hhead hf (hfname ▸ hq)
      exact ⟨first, mem_items_retire.2 ⟨hf, hne⟩, hfid, hfname, hfl⟩
  case oldest =>
    intro changed hc first hf hfhead hreal other hother hname
    obtain ⟨hf, -⟩ := mem_items_retire.1 hf
    obtain ⟨hother, hone⟩ := mem_items_retire.1 hother
    obtain ⟨old, ho, rfl⟩ := hrows changed hc
    split at hfhead
    · rename_i hq
      rw [if_pos hq] at hname
      rw [show first.id = next.id from hfhead]
      exact h.successor_le hhead hs hother (hname.trans hq) hone
    · rename_i hq
      rw [if_neg hq] at hname
      exact h.oldest old ho first hf hfhead hreal other hother hname
  case rowOf =>
    intro other ho hl
    obtain ⟨old, hold, hname⟩ := h.rowOf other (mem_items_retire.1 ho).1 hl
    refine ⟨_, List.mem_map_of_mem hold, ?_⟩
    split <;> exact hname
  case placeholder =>
    intro other ho hplace
    obtain ⟨ho, hone⟩ := mem_items_retire.1 ho
    obtain ⟨old, hold, hname, hh⟩ := h.placeholder other ho hplace
    have hq : ¬ old.name = item.queueName := fun hq =>
      hone (h.placeholder_eq_head hhead ho (hname.symm.trans hq) hplace)
    exact ⟨old, List.mem_map.2 ⟨old, hold, if_neg hq⟩, hname, hh⟩
  case linkedFirst =>
    intro first hf other ho
    exact h.linkedFirst first (mem_items_retire.1 hf).1 other (mem_items_retire.1 ho).1
  case blocks => exact h.blocks

/-! ### A placeholder takes over -/

/-- A queue that moves on to a placeholder keeps its lane sound. -/
theorem Sound.relay (h : l.Sound sharding bound) (hhead : l.head item.id = .ok (item, row))
    (now : Instant) :
    (((l.addItem (.placeholder bound item.queueRef item.blocking now)).updateRow item.queueName
      (·.rehead bound now)).retire item now).Sound sharding (bound + 1) := by
  obtain ⟨hi, hr, hrow, hid⟩ := mem_of_head hhead
  let placeholder : WorkItem := .placeholder bound item.queueRef item.blocking now
  have hnew : placeholder.id ≠ item.id := (Int.ne_of_lt (h.below item hi)).symm
  have hmem : ∀ other : WorkItem,
      other ∈ (((l.addItem placeholder).updateRow item.queueName (·.rehead bound now)).retire item
        now).items ↔ (other ∈ l.items ∧ other.id ≠ item.id) ∨ other = placeholder := by
    intro other
    rw [mem_items_retire]
    show other ∈ l.items ++ [placeholder] ∧ _ ↔ _
    rw [List.mem_append, List.mem_singleton]
    constructor
    · rintro ⟨hold | rfl, hne⟩
      · exact Or.inl ⟨hold, hne⟩
      · exact Or.inr rfl
    · rintro (⟨hold, hne⟩ | rfl)
      · exact ⟨Or.inl hold, hne⟩
      · exact ⟨Or.inr rfl, hnew⟩
  have hrows : ∀ changed : Row,
      changed ∈ (((l.addItem placeholder).updateRow item.queueName
        (·.rehead bound now)).retire item now).rows →
      ∃ old ∈ l.rows, (if old.name = item.queueName then old.rehead bound now else old) =
        changed := fun changed hc => List.mem_map.1 hc
  constructor
  case sorted =>
    refine List.Pairwise.filter _ (List.pairwise_append.2
      ⟨h.sorted, List.pairwise_singleton _ _, ?_⟩)
    intro other ho new hn
    rw [List.mem_singleton.1 hn]
    exact h.below other ho
  case below =>
    intro other ho
    rcases (hmem other).1 ho with ⟨hold, -⟩ | rfl
    · exact Int.lt_add_one_of_le (Int.le_of_lt (h.below other hold))
    · exact Int.lt_add_one_of_le (Int.le_refl _)
  case here =>
    intro other ho
    rcases (hmem other).1 ho with ⟨hold, -⟩ | rfl
    · exact h.here other hold
    · exact h.here item hi
  case targets =>
    intro other ho
    rcases (hmem other).1 ho with ⟨hold, -⟩ | rfl
    · exact h.targets other hold
    · exact h.targets item hi
  case names =>
    have hsame := names_updateRow (l.addItem placeholder) item.queueName
      (f := (·.rehead bound now)) fun _ => rfl
    exact hsame ▸ h.names
  case head =>
    intro changed hc
    obtain ⟨old, ho, rfl⟩ := hrows changed hc
    split
    · rename_i hq
      exact ⟨placeholder, (hmem placeholder).2 (Or.inr rfl), rfl, hq.symm, rfl⟩
    · rename_i hq
      obtain ⟨first, hf, hfid, hfname, hfl⟩ := h.head old ho
      have hne := h.id_ne_head hhead hf (hfname ▸ hq)
      exact ⟨first, (hmem first).2 (Or.inl ⟨hf, hne⟩), hfid, hfname, hfl⟩
  case oldest =>
    intro changed hc first hf hfhead hreal other hother hname
    obtain ⟨old, ho, rfl⟩ := hrows changed hc
    rcases (hmem first).1 hf with ⟨hfold, -⟩ | rfl
    · split at hfhead
      · exact absurd hfhead (Int.ne_of_lt (h.below first hfold))
      · rename_i hq
        rw [if_neg hq] at hname
        rcases (hmem other).1 hother with ⟨hold, -⟩ | rfl
        · exact h.oldest old ho first hfold hfhead hreal other hold hname
        · exact Int.le_of_lt (h.below first hfold)
    · cases hreal
  case rowOf =>
    intro other ho hl
    rcases (hmem other).1 ho with ⟨hold, -⟩ | rfl
    · obtain ⟨held, hheld, hname⟩ := h.rowOf other hold hl
      refine ⟨_, List.mem_map_of_mem hheld, ?_⟩
      split <;> exact hname
    · refine ⟨_, List.mem_map_of_mem hr, ?_⟩
      rw [if_pos hrow]
      exact hrow
  case placeholder =>
    intro other ho hplace
    rcases (hmem other).1 ho with ⟨hold, hone⟩ | rfl
    · obtain ⟨held, hheld, hname, hh⟩ := h.placeholder other hold hplace
      have hq : ¬ held.name = item.queueName := fun hq =>
        hone (h.placeholder_eq_head hhead hold (hname.symm.trans hq) hplace)
      exact ⟨held, List.mem_map.2 ⟨held, hheld, if_neg hq⟩, hname, hh⟩
    · exact ⟨row.rehead bound now, List.mem_map.2 ⟨row, hr, if_pos hrow⟩, hrow, rfl⟩
  case linkedFirst =>
    intro first hf other ho hl hreal hother
    rcases (hmem first).1 hf with ⟨hfold, -⟩ | rfl
    · rcases (hmem other).1 ho with ⟨hold, -⟩ | rfl
      · exact h.linkedFirst first hfold other hold hl hreal hother
      · cases hother
    · cases hreal
  case blocks => exact h.blocks

/-! ### Nobody takes over -/

/-- A queue whose row goes with its last linked item leaves its lane sound. -/
theorem Sound.finish (h : l.Sound sharding bound) (hhead : l.head item.id = .ok (item, row))
    (hs : l.successor? item.queueName item.id = none) (now : Instant) :
    ((l.removeRow item.queueName).retire item now).Sound sharding bound := by
  have hrows : ∀ kept : Row, kept ∈ ((l.removeRow item.queueName).retire item now).rows ↔
      kept ∈ l.rows ∧ kept.name ≠ item.queueName := by
    intro kept
    show kept ∈ l.rows.filter (·.name ≠ item.queueName) ↔ _
    rw [List.mem_filter, decide_eq_true_eq]
  constructor
  case sorted => exact h.sorted.filter _
  case below => exact fun other ho => h.below other (mem_items_retire.1 ho).1
  case here => exact fun other ho => h.here other (mem_items_retire.1 ho).1
  case targets => exact fun other ho => h.targets other (mem_items_retire.1 ho).1
  case names => exact List.Nodup.sublist (List.filter_sublist.map _) h.names
  case head =>
    intro kept hk
    obtain ⟨hk, hq⟩ := (hrows kept).1 hk
    obtain ⟨first, hf, hfid, hfname, hfl⟩ := h.head kept hk
    have hne := h.id_ne_head hhead hf (hfname ▸ hq)
    exact ⟨first, mem_items_retire.2 ⟨hf, hne⟩, hfid, hfname, hfl⟩
  case oldest =>
    intro kept hk first hf hfhead hreal other hother
    exact h.oldest kept ((hrows kept).1 hk).1 first (mem_items_retire.1 hf).1 hfhead hreal other
      (mem_items_retire.1 hother).1
  case rowOf =>
    intro other ho hl
    obtain ⟨ho, hone⟩ := mem_items_retire.1 ho
    obtain ⟨held, hheld, hname⟩ := h.rowOf other ho hl
    have hq : held.name ≠ item.queueName := by
      intro hq
      have hnot := unlinked_of_successor? hs ho (hname.symm.trans hq) hone
      rw [hl] at hnot
      cases hnot
    exact ⟨held, (hrows held).2 ⟨hheld, hq⟩, hname⟩
  case placeholder =>
    intro other ho hplace
    obtain ⟨ho, hone⟩ := mem_items_retire.1 ho
    obtain ⟨held, hheld, hname, hh⟩ := h.placeholder other ho hplace
    have hq : held.name ≠ item.queueName := fun hq =>
      hone (h.placeholder_eq_head hhead ho (hname.symm.trans hq) hplace)
    exact ⟨held, (hrows held).2 ⟨hheld, hq⟩, hname, hh⟩
  case linkedFirst =>
    intro first hf other ho
    exact h.linkedFirst first (mem_items_retire.1 hf).1 other (mem_items_retire.1 ho).1
  case blocks => exact h.blocks

end Lane

end Courier
