/-
  Courier/Proofs/Store/Poll.lean
  ==============================
  **What a poll leaves of a lane.**

  A poll links the new items and applies the mailbox.  A queue without a row gets
  one that is headed by its oldest new item (`Lane.row?_ingest`); before that it
  has no linked item, so this is its oldest item altogether, and the lane stays
  sound (`Lane.Sound.poll`).  The blocks after a poll are the blocks before it with
  the messages of the mailbox replayed over them (`Lane.blockedBy_poll`).  A lane at
  rest is one that a poll neither changes nor finds anything to hand out in.
-/
import Courier.Proofs.Store.Sound

namespace Courier.Lane

open Courier.Time

/-! ### Linking -/

theorem find?_linkRow (rows : List Row) (item : WorkItem) (name : String) :
    (linkRow rows item).find? (·.name = name) =
      (rows.find? (·.name = name)).or
        (if item.queueName = name then some (.start item.queueName item.id item.createdAt)
        else none) := by
  unfold linkRow
  split
  · rename_i hany
    obtain ⟨row, hrow, hname⟩ := List.any_eq_true.1 hany
    by_cases hq : item.queueName = name
    · have hsome : (rows.find? (·.name = name)).isSome = true :=
        Keyed.find?_isSome.2 ⟨row, hrow, (of_decide_eq_true hname).trans hq⟩
      rw [Option.or_of_isSome hsome]
    · rw [if_neg hq, Option.or_none]
  · exact Keyed.find?_append_single Row.name _ name rows

/-- A queue that has a row keeps it; any other gets one from the first item filed under it. -/
theorem find?_foldl_linkRow (items : List WorkItem) (rows : List Row) (name : String) :
    (items.foldl linkRow rows).find? (·.name = name) =
      (rows.find? (·.name = name)).or
        ((items.find? (·.queueName = name)).map fun item =>
          .start item.queueName item.id item.createdAt) := by
  induction items generalizing rows with
  | nil => rw [List.find?_nil, Option.map_none, Option.or_none]; rfl
  | cons item rest ih =>
    rw [List.foldl_cons, ih, find?_linkRow, List.find?_cons, Option.or_assoc]
    by_cases hq : item.queueName = name
    · simp [hq]
    · simp [hq]

theorem names_foldl_linkRow (items : List WorkItem) {rows : List Row}
    (h : (rows.map (·.name)).Nodup) : ((items.foldl linkRow rows).map (·.name)).Nodup := by
  induction items generalizing rows with
  | nil => exact h
  | cons item rest ih =>
    refine ih ?_
    unfold linkRow
    split
    · exact h
    · rename_i hany
      rw [List.map_append]
      refine List.nodup_append.2 ⟨h, List.pairwise_singleton _ _, ?_⟩
      intro a ha b hb heq
      obtain ⟨row, hrow, rfl⟩ := List.mem_map.1 ha
      rw [List.map_singleton, List.mem_singleton] at hb
      exact hany (List.any_eq_true.2 ⟨row, hrow, decide_eq_true (heq.trans hb)⟩)

theorem row?_ingest (l : Lane) (name : String) :
    l.ingest.row? name =
      (l.row? name).or
        (((l.items.filter fun item => !item.isIngested).find? (·.queueName = name)).map
          fun item => .start item.queueName item.id item.createdAt) :=
  find?_foldl_linkRow _ _ _

variable {sharding : Sharding} {bound : WorkItemId} {l : Lane}

/-- A row of a lane outlives the linking of new items. -/
theorem mem_rows_ingest {row : Row} (h : l.Sound sharding bound) (hr : row ∈ l.rows) :
    row ∈ l.ingest.rows := by
  have hfound : l.ingest.row? row.name = some row := by
    rw [row?_ingest, h.row?_of_mem hr]
    rfl
  exact (mem_of_row? hfound).1

/-- A row after the linking was there before, or its queue had none and it is headed by the
    oldest item of the queue. -/
theorem row_ingest_cases {row : Row} (h : l.Sound sharding bound) (hr : row ∈ l.ingest.rows) :
    row ∈ l.rows ∨
      (l.row? row.name = none ∧ ∃ item ∈ l.items,
        row = .start item.queueName item.id item.createdAt ∧
        ∀ other ∈ l.items, other.queueName = row.name → item.id ≤ other.id) := by
  have hfind : l.ingest.row? row.name = some row :=
    Keyed.find?_of_mem (names_foldl_linkRow _ h.names) hr
  rw [row?_ingest] at hfind
  cases hold : l.row? row.name with
  | some old =>
    rw [hold] at hfind
    exact Or.inl (mem_of_row? (hold.trans hfind)).1
  | none =>
    rw [hold, Option.none_or] at hfind
    obtain ⟨item, hitem, rfl⟩ := Option.map_eq_some_iff.1 hfind
    obtain ⟨hmem, -⟩ := Keyed.mem_of_find? WorkItem.queueName hitem
    refine Or.inr ⟨rfl, item, (List.mem_filter.1 hmem).1, rfl, ?_⟩
    intro other ho hq
    -- without a row no item of the queue is linked, so the filter drops none of them
    have hnew : other.isIngested = false := h.unlinked_of_row? hold ho hq
    have hof : other ∈ l.items.filter fun item => !item.isIngested :=
      List.mem_filter.2 ⟨ho, by rw [hnew]; rfl⟩
    exact Keyed.find?_le_of_sorted (h.sorted.filter _) hitem hof (decide_eq_true hq)

theorem mem_items_ingest {item : WorkItem} :
    item ∈ l.ingest.items ↔ ∃ a ∈ l.items, { a with isIngested := true } = item :=
  List.mem_map

/-- Linking the new items keeps a lane sound. -/
theorem Sound.ingest (h : l.Sound sharding bound) : l.ingest.Sound sharding bound := by
  constructor
  case sorted => exact List.pairwise_map.2 h.sorted
  case below =>
    intro item hi
    obtain ⟨a, ha, rfl⟩ := mem_items_ingest.1 hi
    exact h.below a ha
  case here =>
    intro item hi
    obtain ⟨a, ha, rfl⟩ := mem_items_ingest.1 hi
    exact h.here a ha
  case targets =>
    intro item hi
    obtain ⟨a, ha, rfl⟩ := mem_items_ingest.1 hi
    exact h.targets a ha
  case names => exact names_foldl_linkRow _ h.names
  case head =>
    intro row hr
    rcases row_ingest_cases h hr with hold | ⟨-, item, hi, rfl, -⟩
    · obtain ⟨item, hi, hid, hname, -⟩ := h.head row hold
      exact ⟨_, mem_items_ingest.2 ⟨item, hi, rfl⟩, hid, hname, rfl⟩
    · exact ⟨_, mem_items_ingest.2 ⟨item, hi, rfl⟩, rfl, rfl, rfl⟩
  case oldest =>
    intro row hr item hi hhead hreal other ho hname
    obtain ⟨a, ha, rfl⟩ := mem_items_ingest.1 hi
    obtain ⟨b, hb, rfl⟩ := mem_items_ingest.1 ho
    rcases row_ingest_cases h hr with hold | ⟨-, first, -, rfl, hle⟩
    · exact h.oldest row hold a ha hhead hreal b hb hname
    · show a.id ≤ b.id
      rw [show a.id = first.id from hhead]
      exact hle b hb hname
  case rowOf =>
    intro item hi _
    obtain ⟨a, ha, rfl⟩ := mem_items_ingest.1 hi
    cases hlinked : a.isIngested with
    | true =>
      obtain ⟨row, hr, hname⟩ := h.rowOf a ha hlinked
      exact ⟨row, mem_rows_ingest h hr, hname⟩
    | false =>
      have hof : a ∈ l.items.filter fun item => !item.isIngested :=
        List.mem_filter.2 ⟨ha, by rw [hlinked]; rfl⟩
      have hsome : (l.ingest.row? a.queueName).isSome = true := by
        rw [row?_ingest, Option.isSome_or, Option.isSome_map,
          Keyed.find?_isSome.2 ⟨a, hof, rfl⟩, Bool.or_true]
      obtain ⟨row, hrow⟩ := Option.isSome_iff_exists.1 hsome
      exact ⟨row, mem_of_row? hrow⟩
  case placeholder =>
    intro item hi hplace
    obtain ⟨a, ha, rfl⟩ := mem_items_ingest.1 hi
    obtain ⟨row, hr, hrow⟩ := h.placeholder a ha hplace
    exact ⟨row, mem_rows_ingest h hr, hrow⟩
  case linkedFirst =>
    intro item hi other ho _ _ hother
    obtain ⟨b, hb, rfl⟩ := mem_items_ingest.1 ho
    cases hother
  case blocks => exact h.blocks

/-! ### Applying the mailbox -/

/-- The blocks of a queue name after a message. -/
def replay (name : String) (tokens : List BlockToken) (m : BlockingMessage) : List BlockToken :=
  if m.target.name = name then m.change tokens else tokens

/-- The blocks of a queue name once the messages of the mailbox are applied in order. -/
def replayed (l : Lane) (name : String) : List BlockToken :=
  l.mailbox.foldl (replay name) (l.blockedBy name)

theorem blockedBy_applyMessage (l : Lane) (m : BlockingMessage) (name : String) :
    (l.applyMessage m).blockedBy name = replay name (l.blockedBy name) m := by
  unfold applyMessage replay
  rw [blockedBy_setBlockedBy]
  by_cases hname : m.target.name = name
  · rw [if_pos hname.symm, if_pos hname, hname]
  · rw [if_neg fun h => hname h.symm, if_neg hname]

theorem blockedBy_foldl_applyMessage (l : Lane) (messages : List BlockingMessage)
    (name : String) :
    (messages.foldl applyMessage l).blockedBy name =
      messages.foldl (replay name) (l.blockedBy name) := by
  induction messages generalizing l with
  | nil => rfl
  | cons m rest ih => rw [List.foldl_cons, List.foldl_cons, ih, blockedBy_applyMessage]

/-- After a poll the blocks of a queue are what the replay of the mailbox gives. -/
theorem blockedBy_poll (l : Lane) (name : String) : l.poll.blockedBy name = l.replayed name :=
  blockedBy_foldl_applyMessage _ _ _

/-- Applying messages changes nothing but the blocks. -/
theorem foldl_applyMessage (l : Lane) (messages : List BlockingMessage) :
    messages.foldl applyMessage l =
      { l with blocks := (messages.foldl applyMessage l).blocks } := by
  induction messages generalizing l with
  | nil => rfl
  | cons m rest ih =>
    rw [List.foldl_cons, ih (l.applyMessage m)]
    rfl

theorem poll_eq (l : Lane) :
    l.poll = { l.ingest with mailbox := [], blocks := l.poll.blocks } :=
  foldl_applyMessage _ _

@[simp] theorem shard_poll (l : Lane) : l.poll.shard = l.shard := by rw [poll_eq]; rfl

@[simp] theorem items_poll (l : Lane) : l.poll.items = l.ingest.items := by rw [poll_eq]

@[simp] theorem rows_poll (l : Lane) : l.poll.rows = l.ingest.rows := by rw [poll_eq]

theorem row?_poll (l : Lane) (name : String) :
    l.poll.row? name =
      (l.row? name).or
        (((l.items.filter fun item => !item.isIngested).find? (·.queueName = name)).map
          fun item => .start item.queueName item.id item.createdAt) := by
  unfold row?
  rw [rows_poll]
  exact row?_ingest l name

/-- After a poll a queue has the row that it had, or a new one if it had none. -/
theorem row?_poll_cases (l : Lane) (name : String) :
    l.poll.row? name = l.row? name ∨
      (l.row? name = none ∧ ∃ id at_, l.poll.row? name = some (.start name id at_)) := by
  rw [row?_poll]
  cases l.row? name with
  | some row => exact Or.inl rfl
  | none =>
    cases hfirst : (l.items.filter fun item => !item.isIngested).find? (·.queueName = name) with
    | none => exact Or.inl rfl
    | some item =>
      obtain ⟨-, hname⟩ := Keyed.mem_of_find? WorkItem.queueName hfirst
      exact Or.inr ⟨rfl, item.id, item.createdAt, by rw [← hname]; rfl⟩

@[simp] theorem completed_poll (l : Lane) : l.poll.completed = l.completed := by rw [poll_eq]; rfl

@[simp] theorem mailbox_poll (l : Lane) : l.poll.mailbox = [] := by rw [poll_eq]

/-- A poll leaves what the replay gives as it is. -/
theorem replayed_poll (l : Lane) (name : String) : l.poll.replayed name = l.replayed name := by
  unfold Lane.replayed
  rw [mailbox_poll]
  exact blockedBy_poll l name

theorem setBlockedBy_ne_nil {l : Lane} (h : ∀ entry ∈ l.blocks, entry.2 ≠ []) (name : String)
    (tokens : List BlockToken) : ∀ entry ∈ (l.setBlockedBy name tokens).blocks, entry.2 ≠ [] := by
  intro entry he
  unfold setBlockedBy at he
  by_cases hempty : tokens.isEmpty
  · simp only [hempty, if_true] at he
    exact h entry (List.mem_filter.1 he).1
  · simp only [if_neg hempty] at he
    rcases List.mem_append.1 he with hold | hnew
    · exact h entry (List.mem_filter.1 hold).1
    · rw [List.mem_singleton.1 hnew]
      exact fun hnil => hempty (List.isEmpty_iff.2 hnil)

theorem foldl_applyMessage_ne_nil {l : Lane} (h : ∀ entry ∈ l.blocks, entry.2 ≠ [])
    (messages : List BlockingMessage) :
    ∀ entry ∈ (messages.foldl applyMessage l).blocks, entry.2 ≠ [] := by
  induction messages generalizing l with
  | nil => exact h
  | cons m rest ih => exact ih (setBlockedBy_ne_nil h _ _)

/-- A poll keeps a lane sound. -/
theorem Sound.poll (h : l.Sound sharding bound) : l.poll.Sound sharding bound :=
  h.ingest.congr (shard_poll l) (items_poll l) (rows_poll l)
    (foldl_applyMessage_ne_nil (l := { l.ingest with mailbox := [] }) h.blocks _)

/-- A poll finds nothing to do where every item is linked and the mailbox is empty. -/
theorem poll_of_linked (hlinked : ∀ item ∈ l.items, item.isIngested = true)
    (hread : l.mailbox = []) : l.poll = l := by
  have hnew : (l.items.filter fun item => !item.isIngested) = [] := by
    refine List.filter_eq_nil_iff.2 fun item hi => ?_
    rw [hlinked item hi]
    exact Bool.false_ne_true
  have hitems : (l.items.map fun item => { item with isIngested := true }) = l.items := by
    refine (List.map_congr_left fun item hi => ?_).trans (List.map_id l.items)
    rw [← hlinked item hi]
    rfl
  have hingest : l.ingest = l := by
    unfold ingest
    rw [hnew, hitems]
    rfl
  unfold Lane.poll drainMailbox
  rw [hingest, hread]
  exact congrArg (fun mailbox => { l with mailbox }) hread.symm

/-- After a poll every item is linked. -/
theorem linked_poll (l : Lane) : ∀ item ∈ l.poll.items, item.isIngested = true := by
  intro item hi
  rw [items_poll] at hi
  obtain ⟨a, -, rfl⟩ := mem_items_ingest.1 hi
  rfl

/-! ### Lanes at rest -/

variable {now : Instant}

/-- Whether a poll of a lane would change nothing and find nothing to hand out. -/
structure AtRest (l : Lane) (now : Instant) : Prop where
  linked : ∀ item ∈ l.items, item.isIngested = true
  read : l.mailbox = []
  nothing : l.candidate? now = none

theorem atRest_poll (h : l.poll.candidate? now = none) : l.poll.AtRest now where
  linked := linked_poll l
  read := mailbox_poll l
  nothing := h

theorem AtRest.poll (h : l.AtRest now) : l.poll = l := poll_of_linked h.linked h.read

end Courier.Lane
