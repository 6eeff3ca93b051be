/-
  Courier/Proofs/Store/Fifo.lean
  ==============================
  **Items of a queue are completed in the order in which they were filed.**

  The line of a queue is what it still has to do: the numbers of its pending items,
  placeholders apart, oldest first.  Filing an item puts its number at the end of
  the line, completing one takes its number from the front, and nothing else changes
  the line (`Lane.Step.line`); placeholders stand outside of it, though their numbers
  may be greater than those of items that have to wait for them.  Over a whole
  history the numbers filed are the numbers completed followed by the line
  (`Store.line_after`).
-/
import Courier.Proofs.Store.Trace

namespace Courier

open Courier.Time

/-! ### The line of a queue -/

/-- The numbers of the items of a queue among others, placeholders apart. -/
def numbersIn (queue : QueueRef) (items : List WorkItem) : List WorkItemId :=
  (items.filter fun item => item.queueRef = queue ∧ item.isPlaceholder = false).map (·.id)

theorem numbersIn_append (queue : QueueRef) (items more : List WorkItem) :
    numbersIn queue (items ++ more) = numbersIn queue items ++ numbersIn queue more := by
  unfold numbersIn
  rw [List.filter_append, List.map_append]

theorem numbersIn_singleton (queue : QueueRef) (item : WorkItem) :
    numbersIn queue [item] =
      if item.queueRef = queue ∧ item.isPlaceholder = false then [item.id] else [] := by
  by_cases hin : item.queueRef = queue ∧ item.isPlaceholder = false <;> simp [numbersIn, hin]

theorem numbersIn_eq_nil {queue : QueueRef} {items : List WorkItem}
    (h : ∀ item ∈ items, item.queueRef = queue → item.isPlaceholder = true) :
    numbersIn queue items = [] := by
  unfold numbersIn
  rw [List.map_eq_nil_iff, List.filter_eq_nil_iff]
  intro item hi hreal
  obtain ⟨hqueue, hreal⟩ := of_decide_eq_true hreal
  rw [h item hi hqueue] at hreal
  cases hreal

/-- What changes while items are pending is not seen in the line. -/
theorem numbersIn_map (queue : QueueRef) (items : List WorkItem) {g : WorkItem → WorkItem}
    (h : ∀ item ∈ items, (g item).queueRef = item.queueRef ∧
      (g item).isPlaceholder = item.isPlaceholder ∧ (g item).id = item.id) :
    numbersIn queue (items.map g) = numbersIn queue items := by
  induction items with
  | nil => rfl
  | cons item rest ih =>
    obtain ⟨hqueue, hplace, hid⟩ := h item List.mem_cons_self
    have hhead : numbersIn queue [g item] = numbersIn queue [item] := by
      rw [numbersIn_singleton, numbersIn_singleton, hqueue, hplace, hid]
    rw [List.map_cons, ← List.singleton_append, numbersIn_append, hhead,
      ih fun other ho => h other (List.mem_cons_of_mem _ ho), ← numbersIn_append]
    rfl

namespace Lane

variable {sharding : Sharding} {now : Instant} {fresh : WorkItemId} {l l' : Lane} {event : Event}
variable {used : Int} {messages : List BlockingMessage}

theorem numbersIn_setItem (h : l.Sound sharding fresh) {old new : WorkItem} (ho : old ∈ l.items)
    (hn : new.IsSuccessorOf old) (queue : QueueRef) :
    numbersIn queue (l.setItem new).items = numbersIn queue l.items := by
  refine numbersIn_map queue l.items fun item hi => ?_
  split
  · rename_i hid
    rw [h.item_eq hi ho (hid.trans hn.id)]
    unfold WorkItem.queueRef WorkItem.isPlaceholder
    rw [hn.queueName, hn.shard, hn.url]
    exact ⟨rfl, rfl, hn.id⟩
  · exact ⟨rfl, rfl, rfl⟩

theorem numbersIn_poll (l : Lane) (queue : QueueRef) :
    numbersIn queue l.poll.items = numbersIn queue l.items := by
  rw [items_poll]
  exact numbersIn_map queue l.items (g := fun item => { item with isIngested := true })
    fun _ _ => ⟨rfl, rfl, rfl⟩

/-- The head of a queue, unless it is a placeholder, is the first in line. -/
theorem numbersIn_head (h : l.Sound sharding fresh) {item : WorkItem} {row : Row}
    (hi : item ∈ l.items) (hr : row ∈ l.rows) (hid : item.id = row.head)
    (hname : row.name = item.queueName) (hreal : item.isPlaceholder = false) :
    numbersIn item.queueRef l.items =
      item.id :: numbersIn item.queueRef (l.items.filter (·.id ≠ item.id)) := by
  have hfirst : ∀ other ∈ l.items,
      decide (other.queueRef = item.queueRef ∧ other.isPlaceholder = false) = true →
        item.id ≤ other.id := by
    intro other ho hother
    have hq : other.queueName = item.queueName :=
      congrArg QueueRef.name (of_decide_eq_true hother).1
    exact h.oldest row hr item hi hid hreal other ho (hq.trans hname.symm)
  unfold numbersIn
  rw [Keyed.filter_eq_cons_of_first h.sorted hi (decide_eq_true ⟨rfl, hreal⟩) hfirst]
  rfl

/-- Retiring the head of a queue takes its number from the front of the line. -/
theorem numbersIn_retire (h : l.Sound sharding fresh) {item : WorkItem} {row : Row}
    (hhead : l.head item.id = .ok (item, row)) (queue : QueueRef) (now : Instant) :
    numbersIn queue l.items =
      numbersIn queue [item] ++ numbersIn queue (l.retire item now).items := by
  obtain ⟨hi, hr, hname, hid⟩ := mem_of_head hhead
  show _ = _ ++ numbersIn queue (l.items.filter (·.id ≠ item.id))
  rw [numbersIn_singleton]
  by_cases hin : item.queueRef = queue ∧ item.isPlaceholder = false
  · obtain ⟨rfl, hreal⟩ := hin
    rw [if_pos ⟨rfl, hreal⟩]
    exact numbersIn_head h hi hr hid.symm hname hreal
  · rw [if_neg hin]
    unfold numbersIn
    rw [Keyed.filter_filter_ne (Keyed.nodup_of_sorted h.sorted) hi (decide_eq_false hin)]
    rfl

/-- A step puts what it files at the end of the line and takes what it completes from the
    front. -/
theorem Step.line (h : l.Step sharding now fresh event l' used messages)
    (hs : l.Sound sharding fresh) (queue : QueueRef) :
    numbersIn queue l.items ++ event.filedIn queue =
      numbersIn queue event.retired ++ numbersIn queue l'.items := by
  cases h with
  | @file p isFor here single =>
    obtain ⟨freshName, item, hprepare⟩ := isFor
    obtain ⟨hurl, -, -⟩ := NewItem.prepare_spec hprepare
    show _ = numbersIn queue (l.items ++ [p.toWorkItem fresh now])
    rw [numbersIn_append]
    congr 1
    have hreal : (p.toWorkItem fresh now).isPlaceholder = false := decide_eq_false hurl
    have hqueue : (p.toWorkItem fresh now).queueRef = p.queue := rfl
    rw [numbersIn_singleton, hqueue, hreal]
    simp only [and_true]
    rfl
  | @reserve name free =>
    show _ ++ [] = numbersIn queue (l.items ++ [.placeholder fresh ⟨name, l.shard⟩ .none now])
    have hplace : ∀ item ∈ [WorkItem.placeholder fresh ⟨name, l.shard⟩ .none now],
        item.queueRef = queue → item.isPlaceholder = true := by
      intro item hi _
      rw [List.mem_singleton.1 hi]
      rfl
    rw [numbersIn_append, numbersIn_eq_nil hplace]
  | poll =>
    exact (List.append_nil _).trans (numbersIn_poll l queue).symm
  | claim first head =>
    exact (List.append_nil _).trans
      (numbersIn_setItem hs (mem_of_item? head).1 (.attempted _ now) queue).symm
  | change fits => exact List.append_nil _
  | release row? head deferred =>
    exact (List.append_nil _).trans
      (numbersIn_setItem hs (mem_of_item? head).1 (.released _) queue).symm
  | purge => exact List.append_nil _
  | advance head free locked successor =>
    exact (List.append_nil _).trans (numbersIn_retire hs head queue now)
  | @relay item row head free locked last kept =>
    rw [show (Event.completed item).filedIn queue = [] from rfl, List.append_nil,
      numbersIn_retire hs head queue now]
    have hplace : numbersIn queue ([WorkItem.placeholder fresh item.queueRef item.blocking
        now].filter (·.id ≠ item.id)) = [] := by
      refine numbersIn_eq_nil fun other ho _ => ?_
      rw [List.mem_singleton.1 (List.mem_filter.1 ho).1]
      rfl
    show _ = _ ++ numbersIn queue ((l.items ++ [WorkItem.placeholder fresh item.queueRef
      item.blocking now]).filter (·.id ≠ item.id))
    rw [List.filter_append, numbersIn_append, hplace, List.append_nil]
    rfl
  | finish head free unlocked last given =>
    exact (List.append_nil _).trans (numbersIn_retire hs head queue now)

/-- A step of a lane tells nothing of the queues of other shards. -/
theorem Step.elsewhere (h : l.Step sharding now fresh event l' used messages)
    (hs : l.Sound sharding fresh) {queue : QueueRef} (hshard : queue.shard ≠ l.shard) :
    event.filedIn queue = [] ∧ numbersIn queue event.retired = [] := by
  have hretired : ∀ item ∈ l.items, numbersIn queue [item] = [] := by
    intro item hi
    refine numbersIn_eq_nil fun other ho hqueue => ?_
    rw [List.mem_singleton.1 ho] at hqueue
    exact absurd ((congrArg QueueRef.shard hqueue).symm.trans (hs.here item hi)) hshard
  cases h with
  | @file p isFor here single =>
    have hother : p.queue ≠ queue := fun hqueue => hshard (hqueue ▸ here)
    exact ⟨if_neg hother, rfl⟩
  | advance head free locked successor => exact ⟨rfl, hretired _ (mem_of_head head).1⟩
  | relay head free locked last kept => exact ⟨rfl, hretired _ (mem_of_head head).1⟩
  | finish head free unlocked last given => exact ⟨rfl, hretired _ (mem_of_head head).1⟩
  | _ => exact ⟨rfl, rfl⟩

end Lane

namespace Store

variable {sharding : Sharding} {s s' : Store} {now : Instant} {event : Event}

/-! ### The line over a history -/

/-- The numbers of the pending items of a queue, placeholders apart, oldest first. -/
def line (s : Store) (queue : QueueRef) : List WorkItemId :=
  match s.lane? queue.shard with
  | some lane => numbersIn queue lane.items
  | none => []

theorem line_eq_of_lane? {queue : QueueRef} {lane : Lane} (h : s.lane? queue.shard = some lane) :
    s.line queue = numbersIn queue lane.items := by
  unfold line
  rw [h]

theorem line_eq_nil (h : ∀ lane ∈ s.lanes, lane.items = []) (queue : QueueRef) :
    s.line queue = [] := by
  unfold line
  cases hl : s.lane? queue.shard with
  | none => rfl
  | some lane =>
    dsimp only
    rw [h lane (mem_of_lane? hl).1]
    rfl

theorem line_empty (sharding : Sharding) (queue : QueueRef) :
    (empty sharding).line queue = [] := by
  refine line_eq_nil (fun lane hl => ?_) queue
  obtain ⟨shard, -, rfl⟩ := List.mem_map.1 hl
  rfl

/-- The line of a queue is what is pending of it, placeholders apart. -/
theorem Sound.line_of_pending (hs : s.Sound) {queue : QueueRef} {items : List WorkItem}
    (h : s.pending queue = .ok items) :
    s.line queue = (items.filter fun item => !item.isPlaceholder).map (·.id) := by
  unfold pending readLane at h
  cases hl : s.lane? queue.shard with
  | none =>
    rw [hl] at h
    cases h
  | some lane =>
    rw [hl] at h
    obtain rfl := Except.ok.inj h
    rw [line_eq_of_lane? hl]
    unfold numbersIn Lane.pending
    rw [List.filter_filter]
    congr 1
    refine List.filter_congr fun item hi => ?_
    have hat : item.shard = queue.shard :=
      ((hs.lane hl).here item hi).trans (mem_of_lane? hl).2
    have hqueue : item.queueRef = queue ↔ item.queueName = queue.name := by
      constructor
      · exact congrArg QueueRef.name
      · intro hname
        unfold WorkItem.queueRef
        rw [hname, hat]
    cases hplace : item.isPlaceholder <;> simp [hqueue]

theorem Move.line (hs : s.Sound) (h : Move now s event s') (hclear : event ≠ .cleared)
    (queue : QueueRef) :
    s.line queue ++ event.filedIn queue = numbersIn queue event.retired ++ s'.line queue := by
  cases h with
  | record jobs => exact List.append_nil _
  | clear => exact absurd rfl hclear
  | @lane lane lane' event used messages mem step =>
    have hsound := hs.lanes lane mem
    by_cases hshard : queue.shard = lane.shard
    · have hold : s.lane? queue.shard = some lane := hshard ▸ hs.lane?_of_mem mem
      have hnew : (s.replace lane' used messages).lane? queue.shard =
          some (lane'.receive messages) := by
        rw [lane?_replace, if_pos (hshard.trans step.shard.symm), hold]
        rfl
      rw [line_eq_of_lane? hold, line_eq_of_lane? hnew]
      exact step.line hsound queue
    · obtain ⟨hfiled, hretired⟩ := step.elsewhere hsound hshard
      have hsame : (s.replace lane' used messages).line queue = s.line queue := by
        unfold Store.line
        rw [lane?_replace, if_neg (step.shard ▸ hshard)]
        cases s.lane? queue.shard <;> rfl
      rw [hfiled, hretired, hsame, List.append_nil]
      rfl

theorem Moves.line {events : List Event} (hs : s.Sound) (h : Moves now s events s')
    (hclear : .cleared ∉ events) (queue : QueueRef) :
    s.line queue ++ events.flatMap (·.filedIn queue) =
      numbersIn queue (events.flatMap (·.retired)) ++ s'.line queue := by
  induction h with
  | nil s => exact List.append_nil _
  | cons move _ ih =>
    have hfirst := move.line hs (fun he => hclear (he ▸ List.mem_cons_self)) queue
    have hrest := ih (move.sound hs) fun he => hclear (List.mem_cons_of_mem _ he)
    rw [List.flatMap_cons, List.flatMap_cons, numbersIn_append, ← List.append_assoc, hfirst,
      List.append_assoc, hrest, List.append_assoc]

/-- Over a history the numbers filed in a queue, after what was in the line, are the numbers
    completed followed by what is in the line. -/
theorem line_after (hs : s.Sound) (hsharding : s.sharding = sharding)
    {calls : List (Call sharding)} (hclear : ∀ c ∈ calls, c.request ≠ .operate .clear)
    (queue : QueueRef) :
    s.line queue ++ told (Call.filed queue) s calls =
      numbersIn queue (told Call.completed s calls) ++ (s.after calls).line queue := by
  induction calls generalizing s with
  | nil => exact List.append_nil _
  | cons c rest ih =>
    obtain ⟨events, hmoves, haccounts⟩ := c.traced hs hsharding
    obtain ⟨hs', hsharding'⟩ := c.run_sound hs hsharding
    have hfirst := hmoves.line hs
      (fun he => hclear c List.mem_cons_self (haccounts.clears he)) queue
    have hrest := ih hs' hsharding' fun d hd => hclear d (List.mem_cons_of_mem _ hd)
    rw [haccounts.filed, haccounts.completed] at hfirst
    show _ ++ (c.filed queue s ++ _) = numbersIn queue (c.completed s ++ _) ++ _
    rw [numbersIn_append, ← List.append_assoc, hfirst, List.append_assoc, hrest,
      List.append_assoc]
    rfl

/-! ### Numbers are given out in order -/

/-- Whether numbers ascend between two bounds. -/
def Ascends (low high : WorkItemId) (ids : List WorkItemId) : Prop :=
  ids.Pairwise (· < ·) ∧ ∀ id ∈ ids, low ≤ id ∧ id < high

theorem Ascends.append {low mid high : WorkItemId} {ids more : List WorkItemId}
    (h : Ascends low mid ids) (h' : Ascends mid high more) (hlow : low ≤ mid)
    (hhigh : mid ≤ high) : Ascends low high (ids ++ more) := by
  refine ⟨List.pairwise_append.2 ⟨h.1, h'.1, ?_⟩, ?_⟩
  · intro a ha b hb
    exact Int.lt_of_lt_of_le (h.2 a ha).2 (h'.2 b hb).1
  · intro id hid
    rcases List.mem_append.1 hid with hid | hid
    · exact ⟨(h.2 id hid).1, Int.lt_of_lt_of_le (h.2 id hid).2 hhigh⟩
    · exact ⟨Int.le_trans hlow (h'.2 id hid).1, (h'.2 id hid).2⟩

theorem Ascends.nil (low high : WorkItemId) : Ascends low high [] :=
  ⟨.nil, fun _ h => absurd h List.not_mem_nil⟩

theorem Move.ascends (h : Move now s event s') (queue : QueueRef) :
    s.nextId ≤ s'.nextId ∧ Ascends s.nextId s'.nextId (event.filedIn queue) := by
  cases h with
  | record jobs => exact ⟨Int.le_refl _, .nil _ _⟩
  | clear => exact ⟨Int.le_refl _, .nil _ _⟩
  | lane mem step =>
    refine ⟨Int.le_add_of_nonneg_right step.used_nonneg, ?_⟩
    cases step with
    | file isFor here single =>
      unfold Event.filedIn
      dsimp only
      split
      · refine ⟨List.pairwise_singleton _ _, fun id hid => ?_⟩
        rw [List.mem_singleton.1 hid]
        exact ⟨Int.le_refl _, Int.lt_succ _⟩
      · exact .nil _ _
    | _ => exact .nil _ _

theorem Moves.ascends {events : List Event} (h : Moves now s events s') (queue : QueueRef) :
    s.nextId ≤ s'.nextId ∧ Ascends s.nextId s'.nextId (events.flatMap (·.filedIn queue)) := by
  induction h with
  | nil s => exact ⟨Int.le_refl _, .nil _ _⟩
  | cons move _ ih =>
    obtain ⟨hle, hfirst⟩ := move.ascends queue
    exact ⟨Int.le_trans hle ih.1, hfirst.append ih.2 hle ih.1⟩

/-- What each call tells in ascending order, a history tells in ascending order. -/
theorem ascends_told {tell : Call sharding → Store → List WorkItemId}
    (hcall : ∀ (c : Call sharding) {s : Store}, s.Sound → s.sharding = sharding →
      s.nextId ≤ (c.run s).2.nextId ∧ Ascends s.nextId (c.run s).2.nextId (tell c s))
    (hs : s.Sound) (hsharding : s.sharding = sharding) (calls : List (Call sharding)) :
    s.nextId ≤ (s.after calls).nextId ∧
      Ascends s.nextId (s.after calls).nextId (told tell s calls) := by
  induction calls generalizing s with
  | nil => exact ⟨Int.le_refl _, .nil _ _⟩
  | cons c rest ih =>
    obtain ⟨hs', hsharding'⟩ := c.run_sound hs hsharding
    obtain ⟨hle, hfirst⟩ := hcall c hs hsharding
    obtain ⟨hle', hrest⟩ := ih hs' hsharding'
    exact ⟨Int.le_trans hle hle', hfirst.append hrest hle hle'⟩

/-- No number is filed before one that is less, so none is filed twice. -/
theorem ascends_after (hs : s.Sound) (hsharding : s.sharding = sharding)
    (calls : List (Call sharding)) (queue : QueueRef) :
    s.nextId ≤ (s.after calls).nextId ∧
      Ascends s.nextId (s.after calls).nextId (told (Call.filed queue) s calls) := by
  refine ascends_told (fun c s hs hsharding => ?_) hs hsharding calls
  obtain ⟨events, hmoves, haccounts⟩ := c.traced hs hsharding
  rw [← haccounts.filed]
  exact hmoves.ascends queue

/-! ### First in, first out -/

/-- An item that is handed out, unless it is a placeholder, is the first in line. -/
theorem line_eq_cons_of_next (hs : s.Sound) {shard : Shard} {item : WorkItem}
    (h : (s.next now shard).1 = .ok (some item)) (hreal : item.isPlaceholder = false) :
    ∃ rest, s.line item.queueRef = item.id :: rest := by
  obtain ⟨lane, row, head, hl, hpoll, hhead, rfl, -⟩ := next_eq_some hs h
  have hshard : head.queueRef.shard = shard :=
    hhead.shard.trans ((Lane.shard_poll lane).trans (mem_of_lane? hl).2)
  have hline : s.line head.queueRef = numbersIn head.queueRef lane.items :=
    line_eq_of_lane? (hshard ▸ hl)
  refine ⟨numbersIn head.queueRef (lane.poll.items.filter (·.id ≠ head.id)), ?_⟩
  show s.line head.queueRef = _
  rw [hline, ← Lane.numbersIn_poll]
  exact Lane.numbersIn_head hpoll hhead.item hhead.mem hhead.id hhead.name.symm hreal

/-- While nothing is removed wholesale, the items of a queue are completed in the order in which
    they were filed, with none left out: what was filed is what was completed, followed by what is
    pending, placeholders apart.  An item that is handed out is the oldest that is pending, unless
    it is a placeholder. -/
theorem completed_in_filing_order {calls : List (Call sharding)}
    (hclear : ∀ c ∈ calls, c.request ≠ .operate .clear) (queue : QueueRef) :
    told (Call.filed queue) (empty sharding) calls =
        numbersIn queue (told Call.completed (empty sharding) calls) ++
          (reached calls).line queue ∧
      (told (Call.filed queue) (empty sharding) calls).Pairwise (· < ·) ∧
      (∀ items, (reached calls).pending queue = .ok items →
        (reached calls).line queue = (items.filter fun item => !item.isPlaceholder).map (·.id)) ∧
      ∀ now shard item, ((reached calls).next now shard).1 = .ok (some item) →
        item.queueRef = queue → item.isPlaceholder = false →
        ∃ rest, (reached calls).line queue = item.id :: rest := by
  obtain ⟨hs, -⟩ := reached_sound calls
  refine ⟨?_, ?_, ?_, ?_⟩
  · have hline := line_after (.empty sharding) rfl hclear queue
    rw [line_empty] at hline
    exact hline
  · exact (ascends_after (.empty sharding) rfl calls queue).2.1
  · intro items hitems
    exact hs.line_of_pending hitems
  · rintro now shard item h rfl hreal
    exact line_eq_cons_of_next hs h hreal

/-- Two items of a queue are filed, and the first of them is claimed and completed. -/
def firstOfTwoCompleted : List (Call .single) :=
  [⟨{ origin := ⟨10⟩ }, .operate (.enqueue "" { url := "http://a/1", queue := some "orders" })⟩,
   ⟨{ origin := ⟨11⟩ }, .operate (.enqueue "" { url := "http://a/2", queue := some "orders" })⟩,
   ⟨{ origin := ⟨12⟩ }, .operate (.next ⟨0, 1⟩)⟩,
   ⟨{ origin := ⟨13⟩ }, .operate (.complete 1 ⟨0, 1⟩)⟩]

theorem completed_in_filing_order_of_two :
    (∀ c ∈ firstOfTwoCompleted, c.request ≠ .operate .clear) ∧
      told (Call.filed ⟨"orders", ⟨0, 1⟩⟩) (empty .single) firstOfTwoCompleted = [1, 2] ∧
      numbersIn ⟨"orders", ⟨0, 1⟩⟩ (told Call.completed (empty .single) firstOfTwoCompleted) ++
        (reached firstOfTwoCompleted).line ⟨"orders", ⟨0, 1⟩⟩ = [1, 2] := by
  have hclear : ∀ c ∈ firstOfTwoCompleted, c.request ≠ .operate .clear := by
    simp [firstOfTwoCompleted]
  refine ⟨hclear, rfl, ?_⟩
  exact (completed_in_filing_order hclear ⟨"orders", ⟨0, 1⟩⟩).1.symm.trans rfl

end Store

end Courier
