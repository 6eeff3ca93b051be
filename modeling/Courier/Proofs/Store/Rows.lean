/-
  Courier/Proofs/Store/Rows.lean
  ==============================
  **How the rows of a lane fit its items.**

  `Lane.RowsFit` is what can be relied on between any two calls: a queue has a row
  exactly while it has a linked item, the row is headed by a placeholder or by the
  oldest item of the queue, and what is not linked yet is younger than what is.  It
  holds in every lane of every reachable store (`Store.reached_rowsFit`).
-/
import Courier.Proofs.Store.Trace

namespace Courier

open Courier.Time

/-- Whether the rows of a lane fit its pending items. -/
structure Lane.RowsFit (l : Lane) : Prop where
  /-- A queue has a row if and only if it has a linked item. -/
  row_iff : ∀ name, (l.row? name).isSome = true ↔
    ∃ item ∈ l.items, item.queueName = name ∧ item.isIngested = true
  /-- So a paused or locked queue has an item to hold on to. -/
  kept : ∀ name row, l.row? name = some row → (row.isPaused = true ∨ row.lock.isSome = true) →
    ∃ item ∈ l.items, item.queueName = name ∧ item.isIngested = true
  /-- A queue has no second row. -/
  names : (l.rows.map (·.name)).Nodup
  /-- The head of a row is found, and it is a linked item of that very queue. -/
  head : ∀ row ∈ l.rows, ∃ item, l.item? row.head = some item ∧ item.queueName = row.name ∧
    item.isIngested = true
  heads_differ : (l.rows.map (·.head)).Nodup
  /-- The head of a row is a placeholder or the oldest item of the queue. -/
  oldest : ∀ row ∈ l.rows, ∀ item, l.item? row.head = some item → item.isPlaceholder = true ∨
    ∀ other ∈ l.items, other.queueName = row.name → item.id ≤ other.id
  /-- A placeholder is the head of its queue. -/
  placeholder_head : ∀ item ∈ l.items, item.isPlaceholder = true →
    (l.row? item.queueName).map (·.head) = some item.id
  /-- A queue has no second placeholder. -/
  one_placeholder : ∀ item ∈ l.items, ∀ other ∈ l.items, item.isPlaceholder = true →
    other.isPlaceholder = true → item.queueName = other.queueName → item = other
  /-- An item that is not linked is younger than what is, placeholders apart. -/
  unlinked_younger : ∀ item ∈ l.items, ∀ other ∈ l.items, item.isIngested = false →
    other.isIngested = true → other.isPlaceholder = false → other.id < item.id
  /-- A name without blocks has no entry. -/
  blocks : ∀ entry ∈ l.blocks, entry.2 ≠ []

namespace Lane

variable {sharding : Sharding} {bound : WorkItemId} {l : Lane}

theorem Sound.row_iff (h : l.Sound sharding bound) (name : String) :
    (l.row? name).isSome = true ↔
      ∃ item ∈ l.items, item.queueName = name ∧ item.isIngested = true := by
  constructor
  · intro hsome
    obtain ⟨row, hrow⟩ := Option.isSome_iff_exists.1 hsome
    obtain ⟨hmem, hname⟩ := mem_of_row? hrow
    obtain ⟨item, hi, -, hq, hlinked⟩ := h.head row hmem
    exact ⟨item, hi, hq.trans hname, hlinked⟩
  · rintro ⟨item, hi, hq, hlinked⟩
    obtain ⟨row, hr, hname⟩ := h.rowOf item hi hlinked
    exact Keyed.find?_isSome.2 ⟨row, hr, hname.trans hq⟩

theorem Sound.heads_nodup (h : l.Sound sharding bound) : (l.rows.map (·.head)).Nodup := by
  have hnames : l.rows.Pairwise (·.name ≠ ·.name) := List.pairwise_map.1 h.names
  refine List.pairwise_map.2 (hnames.imp_of_mem ?_)
  intro a b ha hb hne hhead
  exact hne (congrArg Row.name (h.head_inj ha hb hhead))

theorem Sound.rowsFit (h : l.Sound sharding bound) : l.RowsFit := by
  constructor
  case row_iff => exact h.row_iff
  case kept =>
    intro name row hrow _
    exact (h.row_iff name).1 (hrow ▸ rfl)
  case names => exact h.names
  case head =>
    intro row hr
    obtain ⟨item, hi, hid, hname, hlinked⟩ := h.head row hr
    exact ⟨item, hid ▸ h.item?_of_mem hi, hname, hlinked⟩
  case heads_differ => exact h.heads_nodup
  case oldest =>
    intro row hr item hfound
    obtain ⟨hi, hid⟩ := mem_of_item? hfound
    cases hplace : item.isPlaceholder with
    | true => exact Or.inl rfl
    | false => exact Or.inr (h.oldest row hr item hi hid hplace)
  case placeholder_head =>
    intro item hi hplace
    obtain ⟨row, hr, hname, hhead⟩ := h.placeholder item hi hplace
    rw [← hname, h.row?_of_mem hr, Option.map_some, hhead]
  case one_placeholder =>
    intro item hi other ho hplace hother hname
    obtain ⟨row, hr, hrow, hhead⟩ := h.placeholder item hi hplace
    obtain ⟨held, hh, hheld, hheld'⟩ := h.placeholder other ho hother
    have hsame : row = held := h.row_eq hr hh (hrow.trans (hname.trans hheld.symm))
    exact h.item_eq hi ho (hhead.symm.trans (hsame ▸ hheld'))
  case unlinked_younger =>
    intro item hi other ho hnew hlinked hreal
    exact h.linkedFirst other ho item hi hlinked hreal hnew
  case blocks => exact h.blocks

end Lane

/-- In every reachable store each shard has its lane, and the rows of each lane fit its items. -/
theorem Store.reached_rowsFit {sharding : Sharding} (calls : List (Call sharding)) :
    (reached calls).lanes.map (·.shard) = sharding.shards ∧
      ∀ lane ∈ (reached calls).lanes, lane.RowsFit := by
  obtain ⟨hs, hsharding⟩ := reached_sound calls
  refine ⟨hs.shards.trans (congrArg Sharding.shards hsharding), ?_⟩
  intro lane hl
  exact (hs.lanes lane hl).rowsFit

end Courier
