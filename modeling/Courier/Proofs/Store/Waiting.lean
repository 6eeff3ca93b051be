/-
  Courier/Proofs/Store/Waiting.lean
  =================================
  **Which queue goes first, and how long its items have waited.**

  A poll takes a queue that no other claimable queue comes before
  (`Lane.candidate?_least`), so a queue that may be claimed is passed over only for
  one whose lease ended no later than its own.  Where nothing is filed meanwhile
  this lets the polls be counted: each of them takes the head of a queue whose
  lease ended early enough and sets the end of that lease to a later instant
  (`Lane.length_ahead_lease_lt`).  Where the queue moves on to its next item, the
  lease goes back to the instant at which that item was filed, which never changes
  (`Lane.Step.origin`).
-/
import Courier.Proofs.Store.Archive
import Courier.Proofs.Store.Turnover
import Mathlib.Data.Prod.Lex

namespace Courier

open Courier.Time

/-! ### The row that has waited longest -/

namespace Row

variable {a b row : Row} {rows : List Row}

/-- What rows are ordered by: the end of the lease, then the head. -/
def key (row : Row) : ℤ ×ₗ ℤ := toLex (row.lockedUntil.nanos, row.head)

theorem before_iff : a.Before b ↔ a.key < b.key := by
  have hsame : a.lockedUntil = b.lockedUntil ↔ a.lockedUntil.nanos = b.lockedUntil.nanos :=
    ⟨congrArg Instant.nanos, Instant.mk.injEq _ _ ▸ id⟩
  unfold Before key
  rw [Prod.Lex.toLex_lt_toLex, hsame]
  exact Iff.rfl

theorem not_before_iff : ¬ a.Before b ↔ b.key ≤ a.key := before_iff.not.trans not_lt

/-- Of two rows, the one that the other does not come before was leased until no later. -/
theorem lockedUntil_le_of_not_before (h : ¬ a.Before b) : b.lockedUntil ≤ a.lockedUntil := by
  rcases (Prod.Lex.toLex_le_toLex).1 (not_before_iff.1 h) with hlt | ⟨hsame, -⟩
  · exact Int.le_of_lt hlt
  · exact Int.le_of_eq hsame

theorem first?_ne_none (hr : row ∈ rows) : first? rows ≠ none := by
  cases rows with
  | nil => cases hr
  | cons first rest =>
    unfold first?
    split
    · exact Option.some_ne_none _
    · split <;> exact Option.some_ne_none _

/-- No row comes before the one that has waited longest. -/
theorem first?_least (h : first? rows = some row) : ∀ other ∈ rows, ¬ other.Before row := by
  induction rows generalizing row with
  | nil => cases h
  | cons head rest ih =>
    intro other ho
    unfold first? at h
    cases hrest : first? rest with
    | none =>
      rw [hrest] at h
      obtain rfl := Option.some.inj h
      rcases List.mem_cons.1 ho with rfl | hin
      · exact not_before_iff.2 le_rfl
      · exact absurd hrest (first?_ne_none hin)
    | some found =>
      rw [hrest] at h
      dsimp only at h
      split at h
      · rename_i hbefore
        obtain rfl := Option.some.inj h
        rcases List.mem_cons.1 ho with rfl | hin
        · exact not_before_iff.2 (before_iff.1 hbefore).le
        · exact ih hrest other hin
      · rename_i hbefore
        obtain rfl := Option.some.inj h
        rcases List.mem_cons.1 ho with rfl | hin
        · exact not_before_iff.2 le_rfl
        · have hle := not_before_iff.1 (ih hrest other hin)
          exact not_before_iff.2 ((not_before_iff.1 hbefore).trans hle)

end Row

/-! ### What becomes of a lease -/

theorem RowChange.lockedUntil_apply (c : RowChange) (now : Instant) (row : Row) :
    (c.apply now row).lockedUntil = row.lockedUntil ∨ now ≤ (c.apply now row).lockedUntil := by
  cases c with
  | reset => exact Or.inr (Int.le_refl _)
  | delay => exact Or.inr (Int.le_refl _)
  | fail => exact Or.inr (Int.le_add_of_nonneg_right (by decide))
  | _ => exact Or.inl rfl

/-- A row whose head is not retired stays, and its lease ends when it did before or no earlier than
    the move. -/
theorem RowStep.kept {now : Instant} {queue : QueueRef} {event : Event} {row : Row}
    {after : Option Row} (h : RowStep now queue event (some row) after)
    (hunretired : ∀ item, event = .completed item → row.head ≠ item.id) (hclear : event ≠ .cleared) :
    ∃ kept, after = some kept ∧ kept.head = row.head ∧
      (kept.lockedUntil = row.lockedUntil ∨ now ≤ kept.lockedUntil) := by
  cases h with
  | keep apart => exact ⟨row, rfl, rfl, Or.inl rfl⟩
  | lease late untripped => exact ⟨_, rfl, rfl, Or.inr (le_leased now)⟩
  | change c => exact ⟨_, rfl, c.head_apply now row, c.lockedUntil_apply now row⟩
  | rehead own retired other => exact absurd retired (hunretired _ rfl)
  | remove own retired free => exact absurd retired (hunretired _ rfl)
  | clear => exact absurd rfl hclear

namespace Lane

variable {sharding : Sharding} {now : Instant} {fresh : WorkItemId} {l l' : Lane} {event : Event}
variable {used : Int} {messages : List BlockingMessage} {item b : WorkItem} {row ours : Row}

/-- If a queue may be claimed, some queue is. -/
theorem candidate?_ne_none (hr : row ∈ l.rows) (hc : l.Claimable now row) :
    l.candidate? now ≠ none :=
  Row.first?_ne_none (List.mem_filter.2 ⟨hr, decide_eq_true hc⟩)

/-- No claimable queue comes before the one that is claimed. -/
theorem candidate?_least (h : l.candidate? now = some row) (ho : ours ∈ l.rows)
    (hc : l.Claimable now ours) : ¬ ours.Before row :=
  Row.first?_least h ours (List.mem_filter.2 ⟨ho, decide_eq_true hc⟩)

/-! ### Queues that may go first -/

/-- The rows of other queues that were leased until no later than a row. -/
def ahead (l : Lane) (ours : Row) : List Row :=
  l.rows.filter fun row => row.name ≠ ours.name ∧ row.lockedUntil ≤ ours.lockedUntil

/-- A row is not ahead of itself. -/
theorem length_ahead_lt (hr : ours ∈ l.rows) : (l.ahead ours).length < l.rows.length :=
  List.length_filter_lt_length_iff_exists.2
    ⟨ours, hr, fun h => (of_decide_eq_true h).1 rfl⟩

/-- A queue that is leased until later is ahead no more, and no other queue takes its place. -/
theorem length_ahead_lease_lt (hr : row ∈ l.ahead ours) (hlate : ours.lockedUntil < now) :
    ((l.lease now row item).ahead ours).length < (l.ahead ours).length := by
  let leased : Row → Row := fun r =>
    if r.name = row.name then { r with lockedUntil := now + leaseDuration } else r
  let isAhead : Row → Bool := fun r => r.name ≠ ours.name ∧ r.lockedUntil ≤ ours.lockedUntil
  have hlease : ∀ r : Row, r.name = row.name → isAhead (leased r) = false := by
    intro r hname
    refine decide_eq_false fun h => ?_
    have hle := h.2
    dsimp only [leased] at hle
    rw [if_pos hname, Instant.le_iff, Instant.nanos_add] at hle
    have hpos : 0 < leaseDuration.nanos := by decide
    have hlt := Instant.lt_iff.1 hlate
    omega
  have hstill : ∀ r : Row, isAhead (leased r) = true → isAhead r = true := by
    intro r h
    by_cases hname : r.name = row.name
    · rw [hlease r hname] at h
      cases h
    · dsimp only [leased] at h
      rwa [if_neg hname] at h
  have hrows : (l.lease now row item).ahead ours =
      ((l.ahead ours).filter fun r => isAhead (leased r)).map leased := by
    show (l.rows.map leased).filter isAhead = ((l.rows.filter isAhead).filter _).map leased
    rw [List.filter_map, List.filter_filter]
    refine congrArg (List.map leased) (List.filter_congr fun r _ => ?_)
    rw [Function.comp_apply, Bool.eq_iff_iff, Bool.and_eq_true]
    exact ⟨fun h => ⟨h, hstill r h⟩, And.left⟩
  rw [hrows, List.length_map]
  exact List.length_filter_lt_length_iff_exists.2
    ⟨row, hr, fun h => Bool.false_ne_true ((hlease row rfl).symm.trans h)⟩

/-! ### When an item was filed -/

/-- What is pending after a step is new and filed at the instant of the step, or it was pending
    before and filed when it was. -/
theorem Step.origin (h : l.Step sharding now fresh event l' used messages)
    (hs : l.Sound sharding fresh) (hb : b ∈ l'.items) :
    (fresh ≤ b.id ∧ b.createdAt = now) ∨
      ∃ a ∈ l.items, b.Is a ∧ b.createdAt = a.createdAt := by
  have hadd : ∀ {new : WorkItem}, new.id = fresh → new.createdAt = now →
      b ∈ (l.addItem new).items → (fresh ≤ b.id ∧ b.createdAt = now) ∨
        ∃ a ∈ l.items, b.Is a ∧ b.createdAt = a.createdAt := by
    intro new hid hat hb
    rcases List.mem_append.1 hb with hold | hnew
    · exact Or.inr ⟨b, hold, .refl b, rfl⟩
    · rw [List.mem_singleton.1 hnew]
      exact Or.inl ⟨Int.le_of_eq hid.symm, hat⟩
  have hset : ∀ {old new : WorkItem}, old ∈ l.items → new.Is old →
      new.createdAt = old.createdAt → b ∈ (l.setItem new).items →
      ∃ a ∈ l.items, b.Is a ∧ b.createdAt = a.createdAt := by
    intro old new ho hn hat hb
    obtain ⟨a, ha, rfl⟩ := List.mem_map.1 hb
    refine ⟨a, ha, ?_⟩
    split
    · rename_i hid
      rw [hs.item_eq ha ho (hid.trans hn.id)]
      exact ⟨hn, hat⟩
    · exact ⟨.refl a, rfl⟩
  have hkept : b ∈ l.items → ∃ a ∈ l.items, b.Is a ∧ b.createdAt = a.createdAt :=
    fun hold => ⟨b, hold, .refl b, rfl⟩
  cases h with
  | file isFor here single => exact hadd rfl rfl hb
  | reserve free => exact hadd rfl rfl hb
  | poll =>
    rw [items_poll] at hb
    obtain ⟨a, ha, rfl⟩ := mem_items_ingest.1 hb
    exact Or.inr ⟨a, ha, ⟨rfl, rfl, rfl, rfl⟩, rfl⟩
  | claim first head =>
    exact Or.inr (hset (mem_of_item? head).1 (.attempted _ now) rfl hb)
  | release row? head deferred =>
    exact Or.inr (hset (mem_of_item? head).1 (.released _) rfl hb)
  | change fits => exact Or.inr (hkept hb)
  | purge => exact Or.inr (hkept hb)
  | advance head free locked successor => exact Or.inr (hkept (mem_items_retire.1 hb).1)
  | relay head free locked last kept => exact hadd rfl rfl (mem_items_retire.1 hb).1
  | finish head free unlocked last given => exact Or.inr (hkept (mem_items_retire.1 hb).1)

/-! ### Where leases come from -/

/-- The lease of a row ends no earlier than the step, or when it did before, or when the head was
    filed. -/
theorem Step.lease_origin (h : l.Step sharding now fresh event l' used messages)
    (hs : l.Sound sharding fresh) (hr : row ∈ l'.rows) :
    now ≤ row.lockedUntil ∨
      (∃ old ∈ l.rows, old.head = row.head ∧ old.lockedUntil = row.lockedUntil) ∨
      ∃ item ∈ l.items, item.id = row.head ∧ item.createdAt = row.lockedUntil := by
  have hkept : row ∈ l.rows →
      ∃ old ∈ l.rows, old.head = row.head ∧ old.lockedUntil = row.lockedUntil :=
    fun hold => ⟨row, hold, rfl, rfl⟩
  cases h with
  | reserve free =>
    rcases List.mem_append.1 hr with hold | hnew
    · exact Or.inr (Or.inl (hkept hold))
    · rw [List.mem_singleton.1 hnew]
      exact Or.inl (Int.le_refl _)
  | poll =>
    rw [rows_poll] at hr
    rcases row_ingest_cases hs hr with hold | ⟨-, item, hi, hrow, -⟩
    · exact Or.inr (Or.inl (hkept hold))
    · rw [hrow]
      exact Or.inr (Or.inr ⟨item, hi, rfl, rfl⟩)
  | claim first head =>
    obtain ⟨old, hold, rfl⟩ := List.mem_map.1 hr
    split
    · exact Or.inl (le_leased now)
    · exact Or.inr (Or.inl ⟨old, hold, rfl, rfl⟩)
  | @change name c fits =>
    obtain ⟨old, hold, rfl⟩ := List.mem_map.1 hr
    split
    · rcases c.lockedUntil_apply now old with hsame | hlate
      · exact Or.inr (Or.inl ⟨old, hold, (c.head_apply now old).symm, hsame.symm⟩)
      · exact Or.inl hlate
    · exact Or.inr (Or.inl ⟨old, hold, rfl, rfl⟩)
  | @advance item next row head free locked successor =>
    obtain ⟨old, hold, rfl⟩ := List.mem_map.1 hr
    split
    · exact Or.inr (Or.inr ⟨next, (successor?_spec successor).1, rfl, rfl⟩)
    · exact Or.inr (Or.inl ⟨old, hold, rfl, rfl⟩)
  | relay head free locked last kept =>
    obtain ⟨old, hold, rfl⟩ := List.mem_map.1 hr
    split
    · exact Or.inl (Int.le_refl _)
    · exact Or.inr (Or.inl ⟨old, hold, rfl, rfl⟩)
  | finish head free unlocked last given =>
    exact Or.inr (Or.inl (hkept (List.mem_filter.1 hr).1))
  | _ => exact Or.inr (Or.inl (hkept hr))

/-- A row whose head is still pending after a step is still there, and its lease ends when it did
    before or no earlier than the step. -/
theorem Step.row_kept (h : l.Step sharding now fresh event l' used messages)
    (hs : l.Sound sharding fresh) (hr : row ∈ l.rows) (hb : b ∈ l'.items) (hid : b.id = row.head) :
    ∃ kept ∈ l'.rows, kept.name = row.name ∧ kept.head = row.head ∧
      (kept.lockedUntil = row.lockedUntil ∨ now ≤ kept.lockedUntil) := by
  have hunretired : ∀ item, event = .completed item → row.head ≠ item.id := by
    rintro item rfl
    rw [← hid]
    cases h with
    | advance head free locked successor => exact (mem_items_retire.1 hb).2
    | relay head free locked last kept => exact (mem_items_retire.1 hb).2
    | finish head free unlocked last given => exact (mem_items_retire.1 hb).2
  have hclear : event ≠ .cleared := by
    rintro rfl
    cases h
  have hrow := h.row? hs row.name
  rw [hs.row?_of_mem hr] at hrow
  obtain ⟨kept, hkept, hhead, hlease⟩ := hrow.kept hunretired hclear
  obtain ⟨hmem, hname⟩ := mem_of_row? hkept
  exact ⟨kept, hmem, hname, hhead, hlease⟩

end Lane

end Courier
