/-
  Courier/Proofs/Store/Sound.lean
  ===============================
  **When the items, rows and blocks of a lane fit together.**

  A lane keeps its items, its rows and its blocks apart, and every operation edits
  them piecemeal.  `Lane.Sound` says what they owe each other between operations:
  rows belong to exactly the queues with a linked item, the head of a row is a
  linked item of its queue, and it is the oldest item of the queue unless it is a
  placeholder.  One lemma for each kind of edit shows that the edit keeps a lane
  sound; removing a row or an item alone does not, so what a completion does to a
  lane is one edit.
-/
import Courier.Proofs.Store.Keyed
import Courier.Store.Backend

namespace Courier

open Courier.Time

/-! ### What becomes of an item while it is pending -/

/-- Whether an item is another one at a later moment: what it was filed with and whether it is
    linked are the same. -/
structure WorkItem.IsSuccessorOf (b a : WorkItem) : Prop where
  id : b.id = a.id
  shard : b.shard = a.shard
  url : b.url = a.url
  queueName : b.queueName = a.queueName
  isIngested : b.isIngested = a.isIngested
  blocking : b.blocking = a.blocking

/-- An item as it is handed out. -/
def WorkItem.attempted (item : WorkItem) (now : Instant) : WorkItem :=
  { item with lastAttemptedAt := some now }

/-- An item after the lock that it was going to put on its queue was taken back. -/
def WorkItem.released (item : WorkItem) : WorkItem := { item with lockWhenComplete := none }

namespace WorkItem.IsSuccessorOf

theorem refl (a : WorkItem) : a.IsSuccessorOf a := ⟨rfl, rfl, rfl, rfl, rfl, rfl⟩

theorem attempted (a : WorkItem) (now : Instant) : (a.attempted now).IsSuccessorOf a :=
  ⟨rfl, rfl, rfl, rfl, rfl, rfl⟩

theorem released (a : WorkItem) : a.released.IsSuccessorOf a := ⟨rfl, rfl, rfl, rfl, rfl, rfl⟩

theorem trans {a b c : WorkItem} (h : c.IsSuccessorOf b) (h' : b.IsSuccessorOf a) :
    c.IsSuccessorOf a where
  id := h.id.trans h'.id
  shard := h.shard.trans h'.shard
  url := h.url.trans h'.url
  queueName := h.queueName.trans h'.queueName
  isIngested := h.isIngested.trans h'.isIngested
  blocking := h.blocking.trans h'.blocking

end WorkItem.IsSuccessorOf

/-! ### Sound lanes -/

/-- Whether a lane of a deployment whose next item number is `bound` is sound. -/
structure Lane.Sound (sharding : Sharding) (bound : WorkItemId) (l : Lane) : Prop where
  /-- Items are kept in the order of their numbers. -/
  sorted : l.items.Pairwise (·.id < ·.id)
  below : ∀ item ∈ l.items, item.id < bound
  here : ∀ item ∈ l.items, item.shard = l.shard
  /-- What an item keeps blocked is another queue, on the shard that owns it. -/
  targets : ∀ item ∈ l.items, ∀ target, item.blocking = .queue target →
    target = .ofName sharding target.name ∧ target.name ≠ item.queueName
  /-- A queue has at most one row. -/
  names : (l.rows.map (·.name)).Nodup
  /-- The head of a row is a linked item of the queue. -/
  head : ∀ row ∈ l.rows, ∃ item ∈ l.items,
    item.id = row.head ∧ item.queueName = row.name ∧ item.isIngested = true
  /-- A head that is no placeholder is the oldest item of its queue. -/
  oldest : ∀ row ∈ l.rows, ∀ item ∈ l.items, item.id = row.head → item.isPlaceholder = false →
    ∀ other ∈ l.items, other.queueName = row.name → item.id ≤ other.id
  /-- A queue with a linked item has a row. -/
  rowOf : ∀ item ∈ l.items, item.isIngested = true → ∃ row ∈ l.rows, row.name = item.queueName
  /-- A placeholder is the head of its queue. -/
  placeholder : ∀ item ∈ l.items, item.isPlaceholder = true →
    ∃ row ∈ l.rows, row.name = item.queueName ∧ row.head = item.id
  /-- Placeholders apart, what is linked is older than what is not. -/
  linkedFirst : ∀ item ∈ l.items, ∀ other ∈ l.items, item.isIngested = true →
    item.isPlaceholder = false → other.isIngested = false → item.id < other.id
  /-- A name without blocks has no entry. -/
  blocks : ∀ entry ∈ l.blocks, entry.2 ≠ []

namespace Lane

variable {sharding : Sharding} {bound : WorkItemId} {l : Lane}

theorem mem_of_item? {id : WorkItemId} {item : WorkItem} (h : l.item? id = some item) :
    item ∈ l.items ∧ item.id = id :=
  Keyed.mem_of_find? WorkItem.id h

theorem mem_of_row? {name : String} {row : Row} (h : l.row? name = some row) :
    row ∈ l.rows ∧ row.name = name :=
  Keyed.mem_of_find? Row.name h

theorem names_updateRow (l : Lane) (name : String) {f : Row → Row}
    (hname : ∀ row, (f row).name = row.name) :
    (l.updateRow name f).rows.map (·.name) = l.rows.map (·.name) := by
  unfold updateRow
  rw [List.map_map]
  refine List.map_congr_left ?_
  intro row _
  dsimp only [Function.comp_apply]
  split
  · exact hname row
  · rfl

/-- An item is the head of its queue if its row says so. -/
theorem head_eq_ok_iff {id : WorkItemId} {item : WorkItem} {row : Row} :
    l.head id = .ok (item, row) ↔
      l.item? id = some item ∧ l.row? item.queueName = some row ∧ row.head = id := by
  unfold Lane.head
  constructor
  · intro h
    split at h
    · cases h
    · rename_i other hitem
      split at h
      · rename_i held hrow
        split at h
        · rename_i hhead
          simp only [Except.ok.injEq, Prod.mk.injEq] at h
          obtain ⟨rfl, rfl⟩ := h
          exact ⟨hitem, hrow, hhead⟩
        · cases h
      · cases h
  · rintro ⟨hitem, hrow, hhead⟩
    simp only [hitem, hrow, hhead, if_true]

namespace Sound

theorem item?_of_mem (h : l.Sound sharding bound) {item : WorkItem} (hi : item ∈ l.items) :
    l.item? item.id = some item :=
  Keyed.find?_of_mem (Keyed.nodup_of_sorted h.sorted) hi

theorem row?_of_mem (h : l.Sound sharding bound) {row : Row} (hr : row ∈ l.rows) :
    l.row? row.name = some row :=
  Keyed.find?_of_mem h.names hr

theorem item_eq (h : l.Sound sharding bound) {a b : WorkItem} (ha : a ∈ l.items)
    (hb : b ∈ l.items) (hid : a.id = b.id) : a = b :=
  Keyed.eq_of_mem (Keyed.nodup_of_sorted h.sorted) ha hb hid

theorem row_eq (h : l.Sound sharding bound) {a b : Row} (ha : a ∈ l.rows) (hb : b ∈ l.rows)
    (hname : a.name = b.name) : a = b :=
  Keyed.eq_of_mem h.names ha hb hname

/-- No two rows share a head. -/
theorem head_inj (h : l.Sound sharding bound) {a b : Row} (ha : a ∈ l.rows) (hb : b ∈ l.rows)
    (hhead : a.head = b.head) : a = b := by
  obtain ⟨item, hi, hid, hname, -⟩ := h.head a ha
  obtain ⟨other, ho, hoid, honame, -⟩ := h.head b hb
  have hsame : item = other := h.item_eq hi ho (hid.trans (hhead.trans hoid.symm))
  exact h.row_eq ha hb (hname.symm.trans (hsame ▸ honame))

/-- A queue without a row has no linked item. -/
theorem unlinked_of_row? (h : l.Sound sharding bound) {name : String} (hr : l.row? name = none)
    {item : WorkItem} (hi : item ∈ l.items) (hname : item.queueName = name) :
    item.isIngested = false := by
  cases hl : item.isIngested with
  | false => rfl
  | true =>
    obtain ⟨row, hrow, hn⟩ := h.rowOf item hi hl
    exact absurd (hn.trans hname) (Keyed.find?_eq_none.1 hr row hrow)

/-- A lane without items is sound. -/
theorem empty (shard : Shard) : (Lane.empty shard).Sound sharding bound where
  sorted := .nil
  below := fun _ h => by cases h
  here := fun _ h => by cases h
  targets := fun _ h => by cases h
  names := .nil
  head := fun _ h => by cases h
  oldest := fun _ h => by cases h
  rowOf := fun _ h => by cases h
  placeholder := fun _ h => by cases h
  linkedFirst := fun _ h => by cases h
  blocks := fun _ h => by cases h

/-- Being sound is a matter of the items, the rows and the blocks. -/
theorem congr (h : l.Sound sharding bound) {l' : Lane} (hshard : l'.shard = l.shard)
    (hitems : l'.items = l.items) (hrows : l'.rows = l.rows)
    (hblocks : ∀ entry ∈ l'.blocks, entry.2 ≠ []) : l'.Sound sharding bound where
  sorted := hitems ▸ h.sorted
  below := hitems ▸ h.below
  here := by rw [hitems, hshard]; exact h.here
  targets := hitems ▸ h.targets
  names := hrows ▸ h.names
  head := by rw [hitems, hrows]; exact h.head
  oldest := by rw [hitems, hrows]; exact h.oldest
  rowOf := by rw [hitems, hrows]; exact h.rowOf
  placeholder := by rw [hitems, hrows]; exact h.placeholder
  linkedFirst := hitems ▸ h.linkedFirst
  blocks := hblocks

/-- Numbers that are given out meanwhile do not matter. -/
theorem mono (h : l.Sound sharding bound) {later : WorkItemId} (hle : bound ≤ later) :
    l.Sound sharding later :=
  { h with below := fun item hi => Int.lt_of_lt_of_le (h.below item hi) hle }

/-! ### Items and rows that are added -/

/-- Filing an item under the next number keeps a lane sound. -/
theorem addItem (h : l.Sound sharding bound) {item : WorkItem} (hid : item.id = bound)
    (hshard : item.shard = l.shard) (hreal : item.isPlaceholder = false)
    (hnew : item.isIngested = false)
    (htarget : ∀ target, item.blocking = .queue target →
      target = .ofName sharding target.name ∧ target.name ≠ item.queueName) :
    (l.addItem item).Sound sharding (bound + 1) := by
  have hmem : ∀ other, other ∈ (l.addItem item).items ↔ other ∈ l.items ∨ other = item := by
    intro other
    simp only [Lane.addItem, List.mem_append, List.mem_singleton]
  have hbelow : ∀ other ∈ l.items, other.id < item.id := fun other ho => hid ▸ h.below other ho
  constructor
  case sorted =>
    refine List.pairwise_append.2 ⟨h.sorted, List.pairwise_singleton _ _, ?_⟩
    intro other ho new hnew
    rw [List.mem_singleton.1 hnew]
    exact hbelow other ho
  case below =>
    intro other ho
    rcases (hmem other).1 ho with ho | rfl
    · exact Int.lt_add_one_of_le (Int.le_of_lt (h.below other ho))
    · rw [hid]; exact Int.lt_add_one_of_le (Int.le_refl _)
  case here =>
    intro other ho
    rcases (hmem other).1 ho with ho | rfl
    · exact h.here other ho
    · exact hshard
  case targets =>
    intro other ho
    rcases (hmem other).1 ho with ho | rfl
    · exact h.targets other ho
    · exact htarget
  case names => exact h.names
  case head =>
    intro row hr
    obtain ⟨first, hf, hfirst⟩ := h.head row hr
    exact ⟨first, (hmem first).2 (Or.inl hf), hfirst⟩
  case oldest =>
    intro row hr first hf hhead hfirst other ho hname
    -- the new item is nobody's head, since a head is there already
    have hold : first ∈ l.items := by
      rcases (hmem first).1 hf with hold | hnew
      · exact hold
      · obtain ⟨head, hh, hheadId, -, -⟩ := h.head row hr
        have hlt := hbelow head hh
        rw [hheadId, ← hhead, hnew] at hlt
        exact absurd hlt (Int.lt_irrefl _)
    rcases (hmem other).1 ho with hother | hnew
    · exact h.oldest row hr first hold hhead hfirst other hother hname
    · exact hnew ▸ Int.le_of_lt (hbelow first hold)
  case rowOf =>
    intro other ho hlinked
    rcases (hmem other).1 ho with ho | rfl
    · exact h.rowOf other ho hlinked
    · rw [hnew] at hlinked; cases hlinked
  case placeholder =>
    intro other ho hplace
    rcases (hmem other).1 ho with ho | rfl
    · exact h.placeholder other ho hplace
    · rw [hreal] at hplace; cases hplace
  case linkedFirst =>
    intro first hf other ho hlinked hfirst hother
    rcases (hmem first).1 hf with hold | rfl
    · rcases (hmem other).1 ho with holder | rfl
      · exact h.linkedFirst first hold other holder hlinked hfirst hother
      · exact hbelow first hold
    · rw [hnew] at hlinked; cases hlinked
  case blocks => exact h.blocks

/-- Reserving a queue that has no row keeps a lane sound. -/
theorem reserve (h : l.Sound sharding bound) {name : String} (hr : l.row? name = none)
    (now : Instant) :
    ((l.addItem (.placeholder bound ⟨name, l.shard⟩ .none now)).addRow
      (.start name bound now)).Sound sharding (bound + 1) := by
  let item : WorkItem := .placeholder bound ⟨name, l.shard⟩ .none now
  let row : Row := .start name bound now
  have hitem : ∀ other, other ∈ l.items ++ [item] ↔ other ∈ l.items ∨ other = item := by
    intro other
    simp only [List.mem_append, List.mem_singleton]
  have hrow : ∀ other, other ∈ l.rows ++ [row] ↔ other ∈ l.rows ∨ other = row := by
    intro other
    simp only [List.mem_append, List.mem_singleton]
  have hfresh : ∀ other ∈ l.rows, other.name ≠ name := Keyed.find?_eq_none.1 hr
  constructor
  case sorted =>
    refine List.pairwise_append.2 ⟨h.sorted, List.pairwise_singleton _ _, ?_⟩
    intro other ho new hnew
    rw [List.mem_singleton.1 hnew]
    exact h.below other ho
  case below =>
    intro other ho
    rcases (hitem other).1 ho with ho | rfl
    · exact Int.lt_add_one_of_le (Int.le_of_lt (h.below other ho))
    · exact Int.lt_add_one_of_le (Int.le_refl _)
  case here =>
    intro other ho
    rcases (hitem other).1 ho with ho | rfl
    · exact h.here other ho
    · rfl
  case targets =>
    intro other ho target htarget
    rcases (hitem other).1 ho with ho | rfl
    · exact h.targets other ho target htarget
    · cases htarget
  case names =>
    show ((l.rows ++ [row]).map (·.name)).Nodup
    rw [List.map_append]
    refine List.nodup_append.2 ⟨h.names, List.pairwise_singleton _ _, ?_⟩
    intro a ha b hb heq
    obtain ⟨other, ho, rfl⟩ := List.mem_map.1 ha
    rw [List.map_singleton, List.mem_singleton] at hb
    exact hfresh other ho (heq.trans hb)
  case head =>
    intro other ho
    rcases (hrow other).1 ho with ho | rfl
    · obtain ⟨first, hf, hfirst⟩ := h.head other ho
      exact ⟨first, (hitem first).2 (Or.inl hf), hfirst⟩
    · exact ⟨item, (hitem item).2 (Or.inr rfl), rfl, rfl, rfl⟩
  case oldest =>
    intro other ho first hf hhead hfirst third ht hname
    rcases (hitem first).1 hf with hf | rfl
    · rcases (hrow other).1 ho with ho | rfl
      · rcases (hitem third).1 ht with ht | rfl
        · exact h.oldest other ho first hf hhead hfirst third ht hname
        · exact Int.le_of_lt (h.below first hf)
      · exact absurd hhead (Int.ne_of_lt (h.below first hf))
    · cases hfirst
  case rowOf =>
    intro other ho hlinked
    rcases (hitem other).1 ho with ho | rfl
    · obtain ⟨held, hh, hname⟩ := h.rowOf other ho hlinked
      exact ⟨held, (hrow held).2 (Or.inl hh), hname⟩
    · exact ⟨row, (hrow row).2 (Or.inr rfl), rfl⟩
  case placeholder =>
    intro other ho hplace
    rcases (hitem other).1 ho with ho | rfl
    · obtain ⟨held, hh, hheld⟩ := h.placeholder other ho hplace
      exact ⟨held, (hrow held).2 (Or.inl hh), hheld⟩
    · exact ⟨row, (hrow row).2 (Or.inr rfl), rfl, rfl⟩
  case linkedFirst =>
    intro first hf other ho hlinked hfirst hother
    rcases (hitem first).1 hf with hf | rfl
    · rcases (hitem other).1 ho with ho | rfl
      · exact h.linkedFirst first hf other ho hlinked hfirst hother
      · exact h.below first hf
    · cases hfirst
  case blocks => exact h.blocks

/-! ### Items and rows that change -/

/-- Changing the row of a queue but for its name and head keeps a lane sound. -/
theorem updateRow (h : l.Sound sharding bound) (name : String) {f : Row → Row}
    (hname : ∀ row, (f row).name = row.name) (hhead : ∀ row, (f row).head = row.head) :
    (l.updateRow name f).Sound sharding bound := by
  let g : Row → Row := fun row => if row.name = name then f row else row
  have hgname : ∀ row, (g row).name = row.name := by
    intro row
    dsimp only [g]
    split
    · exact hname row
    · rfl
  have hghead : ∀ row, (g row).head = row.head := by
    intro row
    dsimp only [g]
    split
    · exact hhead row
    · rfl
  constructor
  case sorted => exact h.sorted
  case below => exact h.below
  case here => exact h.here
  case targets => exact h.targets
  case names =>
    rw [names_updateRow l name hname]
    exact h.names
  case head =>
    intro row hr
    obtain ⟨old, ho, rfl⟩ : ∃ old ∈ l.rows, g old = row := List.mem_map.1 hr
    rw [hgname, hghead]
    exact h.head old ho
  case oldest =>
    intro row hr
    obtain ⟨old, ho, rfl⟩ : ∃ old ∈ l.rows, g old = row := List.mem_map.1 hr
    rw [hgname, hghead]
    exact h.oldest old ho
  case rowOf =>
    intro item hi hlinked
    obtain ⟨row, hr, hn⟩ := h.rowOf item hi hlinked
    exact ⟨g row, List.mem_map_of_mem hr, (hgname row).trans hn⟩
  case placeholder =>
    intro item hi hplace
    obtain ⟨row, hr, hn, hh⟩ := h.placeholder item hi hplace
    exact ⟨g row, List.mem_map_of_mem hr, (hgname row).trans hn, (hghead row).trans hh⟩
  case linkedFirst => exact h.linkedFirst
  case blocks => exact h.blocks

/-- Replacing an item by itself at a later moment keeps a lane sound. -/
theorem setItem (h : l.Sound sharding bound) {old new : WorkItem} (ho : old ∈ l.items)
    (hn : new.IsSuccessorOf old) : (l.setItem new).Sound sharding bound := by
  have hchange : ∀ item ∈ (l.setItem new).items, ∃ a ∈ l.items, item.IsSuccessorOf a := by
    intro item hi
    obtain ⟨a, ha, rfl⟩ := List.mem_map.1 hi
    refine ⟨a, ha, ?_⟩
    split
    · rename_i hid
      rw [h.item_eq ha ho (hid.trans hn.id)]
      exact hn
    · exact .refl a
  have hkept : ∀ a ∈ l.items, ∃ item ∈ (l.setItem new).items, item.IsSuccessorOf a := by
    intro a ha
    refine ⟨_, List.mem_map_of_mem ha, ?_⟩
    split
    · rename_i hid
      rw [h.item_eq ha ho (hid.trans hn.id)]
      exact hn
    · exact .refl a
  constructor
  case sorted =>
    refine List.pairwise_map.2 (h.sorted.imp ?_)
    intro a b hab
    have hsame : ∀ c : WorkItem, (if c.id = new.id then new else c).id = c.id := by
      intro c
      split
      · rename_i hid; exact hid.symm
      · rfl
    rw [hsame, hsame]
    exact hab
  case below =>
    intro item hi
    obtain ⟨a, ha, hs⟩ := hchange item hi
    rw [hs.id]
    exact h.below a ha
  case here =>
    intro item hi
    obtain ⟨a, ha, hs⟩ := hchange item hi
    rw [hs.shard]
    exact h.here a ha
  case targets =>
    intro item hi
    obtain ⟨a, ha, hs⟩ := hchange item hi
    rw [hs.blocking, hs.queueName]
    exact h.targets a ha
  case names => exact h.names
  case head =>
    intro row hr
    obtain ⟨a, ha, hid, hname, hlinked⟩ := h.head row hr
    obtain ⟨item, hi, hs⟩ := hkept a ha
    exact ⟨item, hi, hs.id.trans hid, hs.queueName.trans hname, hs.isIngested.trans hlinked⟩
  case oldest =>
    intro row hr item hi hhead hreal other ho hname
    obtain ⟨a, ha, hs⟩ := hchange item hi
    obtain ⟨b, hb, ht⟩ := hchange other ho
    rw [WorkItem.isPlaceholder, hs.url] at hreal
    rw [hs.id, ht.id]
    exact h.oldest row hr a ha (hs.id.symm.trans hhead) hreal b hb (ht.queueName.symm.trans hname)
  case rowOf =>
    intro item hi hlinked
    obtain ⟨a, ha, hs⟩ := hchange item hi
    rw [hs.queueName]
    exact h.rowOf a ha (hs.isIngested.symm.trans hlinked)
  case placeholder =>
    intro item hi hplace
    obtain ⟨a, ha, hs⟩ := hchange item hi
    rw [WorkItem.isPlaceholder, hs.url] at hplace
    rw [hs.queueName, hs.id]
    exact h.placeholder a ha hplace
  case linkedFirst =>
    intro item hi other ho hlinked hreal hother
    obtain ⟨a, ha, hs⟩ := hchange item hi
    obtain ⟨b, hb, ht⟩ := hchange other ho
    rw [WorkItem.isPlaceholder, hs.url] at hreal
    rw [hs.id, ht.id]
    exact h.linkedFirst a ha b hb (hs.isIngested.symm.trans hlinked) hreal
      (ht.isIngested.symm.trans hother)
  case blocks => exact h.blocks

end Sound

end Lane

end Courier
