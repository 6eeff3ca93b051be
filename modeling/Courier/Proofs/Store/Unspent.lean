/-
  Courier/Proofs/Store/Unspent.lean
  =================================
  **What can still be settled while time stands still.**

  An item is unspent while its queue is neither leased nor backed off.  Whatever a
  consumer does with the item that it claimed, that item is unspent no longer: a
  queue that is failed or delayed is not open again at the same instant, and a queue
  that moves on has lost the item (`Lane.Step.spares`).  A poll makes nothing
  unspent (`Lane.unspent_poll`).  So each settlement at a fixed instant uses one of
  finitely many items up.
-/
import Courier.Proofs.Store.Completion
import Mathlib.Data.List.Perm.Subperm

namespace Courier

open Courier.Time

namespace Lane

variable {sharding : Sharding} {now : Instant} {bound : WorkItemId} {l l' : Lane} {item : WorkItem}
variable {row : Row} {used : Int} {messages : List BlockingMessage}

/-- Whether a queue is neither leased nor backed off. -/
def IsOpen (l : Lane) (now : Instant) (name : String) : Prop :=
  ∀ row ∈ l.rows, row.name = name → row.lockedUntil < now

instance (l : Lane) (now : Instant) (name : String) : Decidable (l.IsOpen now name) :=
  inferInstanceAs (Decidable (∀ row ∈ l.rows, _))

/-- The numbers of the items whose queue is open. -/
def unspent (l : Lane) (now : Instant) : List WorkItemId :=
  (l.items.filter fun item => l.IsOpen now item.queueName).map (·.id)

theorem mem_unspent {id : WorkItemId} :
    id ∈ l.unspent now ↔ ∃ item ∈ l.items, l.IsOpen now item.queueName ∧ item.id = id := by
  simp [unspent, and_assoc]

theorem nodup_unspent (h : l.Sound sharding bound) (now : Instant) : (l.unspent now).Nodup :=
  (Keyed.nodup_of_sorted h.sorted).sublist (List.filter_sublist.map _)

theorem length_unspent_le (l : Lane) (now : Instant) :
    (l.unspent now).length ≤ l.items.length := by
  simp only [unspent, List.length_map]
  exact List.length_filter_le ..

/-- A poll gives rows to queues without one, and so opens none. -/
theorem unspent_poll (h : l.Sound sharding bound) :
    (l.poll.unspent now).length ≤ (l.unspent now).length := by
  refine (List.subperm_of_subset (nodup_unspent h.poll now) fun id hid => ?_).length_le
  obtain ⟨item, hi, hopen, rfl⟩ := mem_unspent.1 hid
  rw [items_poll] at hi
  obtain ⟨a, ha, rfl⟩ := mem_items_ingest.1 hi
  refine mem_unspent.2 ⟨a, ha, fun row hr => hopen row ?_, rfl⟩
  rw [rows_poll]
  exact mem_rows_ingest h hr

/-! ### Spending an item -/

/-- Whether what is unspent was unspent before, the given item apart. -/
def Spends (l : Lane) (now : Instant) (item : WorkItem) (l' : Lane) : Prop :=
  ∀ b ∈ l'.items, l'.IsOpen now b.queueName → b.id ≠ item.id ∧
    ∃ a ∈ l.items, a.id = b.id ∧ l.IsOpen now a.queueName

theorem Spends.length_lt (h : l.Spends now item l') {later : WorkItemId}
    (hs' : l'.Sound sharding later) (hi : item ∈ l.items)
    (hopen : l.IsOpen now item.queueName) :
    (l'.unspent now).length < (l.unspent now).length := by
  have hnew : item.id ∉ l'.unspent now := by
    intro hid
    obtain ⟨b, hb, hbopen, hsame⟩ := mem_unspent.1 hid
    exact (h b hb hbopen).1 hsame
  have hnodup : (item.id :: l'.unspent now).Nodup :=
    List.nodup_cons.2 ⟨hnew, nodup_unspent hs' now⟩
  have hsub : item.id :: l'.unspent now ⊆ l.unspent now := by
    intro id hid
    rcases List.mem_cons.1 hid with rfl | hid
    · exact mem_unspent.2 ⟨item, hi, hopen, rfl⟩
    · obtain ⟨b, hb, hbopen, rfl⟩ := mem_unspent.1 hid
      obtain ⟨-, a, ha, hsame, haopen⟩ := h b hb hbopen
      exact mem_unspent.2 ⟨a, ha, haopen, hsame⟩
  exact (List.subperm_of_subset hnodup hsub).length_le

theorem IsCandidate.isOpen (h : l.IsCandidate now row item) (hs : l.Sound sharding bound) :
    l.IsOpen now item.queueName := by
  intro other ho hname
  rw [hs.row_eq ho h.mem (hname.trans h.name)]
  exact h.claimable.1

theorem not_add_lt (now : Instant) {span : Span} (hspan : 0 ≤ span.nanos) : ¬ now + span < now := by
  rw [Instant.lt_iff]
  show ¬ now.nanos + span.nanos < now.nanos
  omega

/-- What is in a leased lane was in the lane before, under an open queue if it is so now. -/
theorem mem_lease (hs : l.Sound sharding bound) (h : l.IsCandidate now row item) {b : WorkItem}
    (hb : b ∈ (l.lease now row item).items) :
    ∃ a ∈ l.items, a.id = b.id ∧ a.queueName = b.queueName := by
  obtain ⟨a, ha, rfl⟩ := List.mem_map.1 hb
  refine ⟨a, ha, ?_⟩
  split
  · rename_i hid
    rw [hs.item_eq ha h.item hid]
    exact ⟨rfl, rfl⟩
  · exact ⟨rfl, rfl⟩

/-- A queue that is leased is not open. -/
theorem not_isOpen_updateRow (hr : row ∈ l.rows) {f : Row → Row}
    (hname : ∀ row, (f row).name = row.name) (hlocked : ¬ (f row).lockedUntil < now) :
    ¬ (l.updateRow row.name f).IsOpen now row.name := by
  intro hopen
  refine hlocked (hopen _ (List.mem_map.2 ⟨row, hr, if_pos rfl⟩) (hname row))

theorem isOpen_of_updateRow {name other : String} {f : Row → Row} (hne : other ≠ name)
    (h : (l.updateRow name f).IsOpen now other) : l.IsOpen now other := by
  intro row hr hname
  refine h row (List.mem_map.2 ⟨row, hr, if_neg ?_⟩) hname
  exact fun hsame => hne (hname.symm.trans hsame)

/-- A queue that is open after its head was claimed was open before: it is another one. -/
theorem isOpen_of_lease (h : l.IsCandidate now row item) {name : String}
    (hopen : (l.lease now row item).IsOpen now name) : name ≠ row.name ∧ l.IsOpen now name := by
  have hne : name ≠ row.name := by
    rintro rfl
    let leased : Row → Row := fun r => { r with lockedUntil := now + leaseDuration }
    have hclosed : ¬ (l.updateRow row.name leased).IsOpen now row.name :=
      not_isOpen_updateRow h.mem (fun _ => rfl) (not_add_lt now (by decide))
    exact hclosed hopen
  exact ⟨hne, isOpen_of_updateRow hne hopen⟩

/-- A claimed item is spent when its queue is not open any more. -/
theorem spends_settleRow (hs : l.Sound sharding bound) (h : l.IsCandidate now row item)
    {f : Row → Row} (hname : ∀ row, (f row).name = row.name)
    (hlocked : ∀ row, ¬ (f row).lockedUntil < now) :
    l.Spends now item ((l.lease now row item).updateRow item.queueName f) := by
  intro b hb hopen
  obtain ⟨a, ha, hid, haname⟩ := mem_lease hs h hb
  have hne : b.queueName ≠ item.queueName := by
    intro hsame
    obtain ⟨leased, hl, hlname⟩ : ∃ leased ∈ (l.lease now row item).rows,
        leased.name = item.queueName := ⟨_, List.mem_map.2 ⟨row, h.mem, if_pos rfl⟩, h.name.symm⟩
    rw [hsame, ← hlname] at hopen
    exact not_isOpen_updateRow hl hname (hlocked leased) hopen
  have hbefore := isOpen_of_lease h (isOpen_of_updateRow hne hopen)
  refine ⟨fun hsame => hne ?_, a, ha, hid, haname ▸ hbefore.2⟩
  rw [← haname, hs.item_eq ha h.item (hid.trans hsame)]

/-- A completion leaves of the open queues those that were open, and opens at most the queue of
    the item that is gone. -/
theorem Step.spares (h : l.Step sharding now bound (.completed item) l' used messages)
    {b : WorkItem} (hb : b ∈ l'.items) (hopen : l'.IsOpen now b.queueName) :
    b.id ≠ item.id ∧ b ∈ l.items ∧
      (b.queueName ≠ item.queueName → l.IsOpen now b.queueName) := by
  cases h with
  | advance head free locked successor =>
    obtain ⟨hold, hne⟩ := mem_items_retire.1 hb
    exact ⟨hne, hold, fun hname => isOpen_of_updateRow hname hopen⟩
  | relay head free locked last kept =>
    obtain ⟨hmem, hne⟩ := mem_items_retire.1 hb
    obtain ⟨-, hr, hname, -⟩ := mem_of_head head
    rcases List.mem_append.1 hmem with hold | hnew
    · exact ⟨hne, hold, fun hname => isOpen_of_updateRow hname hopen⟩
    · -- the placeholder is due only after this instant
      rw [List.mem_singleton.1 hnew] at hopen
      refine absurd hopen ?_
      rw [show (WorkItem.placeholder bound item.queueRef item.blocking now).queueName =
        item.queueName from rfl, ← hname]
      exact not_isOpen_updateRow (f := (·.rehead bound now)) hr (fun _ => rfl)
        (Int.lt_irrefl now.nanos)
  | finish head free unlocked last given =>
    obtain ⟨hold, hne⟩ := mem_items_retire.1 hb
    refine ⟨hne, hold, fun hname row hr hrow => hopen row (List.mem_filter.2 ⟨hr, ?_⟩) hrow⟩
    exact decide_eq_true fun hsame => hname (hrow.symm.trans hsame)

/-! ### Settling what was claimed -/

/-- The head of a row that was just leased is found, under the lease. -/
theorem head_lease (hs : l.Sound sharding bound) (h : l.IsCandidate now row item) :
    (l.lease now row item).head item.id =
      .ok (item.attempted now, { row with lockedUntil := now + leaseDuration }) := by
  let leased : Row → Row := fun r => { r with lockedUntil := now + leaseDuration }
  have hfound : (l.updateRow row.name leased).item? item.id = some item := hs.item?_of_mem h.item
  have hrow : (l.updateRow row.name leased).row? item.queueName = some (leased row) := by
    rw [row?_updateRow l row.name item.queueName leased fun _ => rfl, if_pos h.name, h.name,
      hs.row?_of_mem h.mem]
    rfl
  refine head_eq_ok_iff.2 ⟨?_, hrow, h.id.symm⟩
  have hset := item?_setItem (l.updateRow row.name leased) (item.attempted now) item.id
  rw [if_pos (show item.id = (item.attempted now).id from rfl), hfound] at hset
  exact hset

theorem isOpen_of_locks {locked : Lane} (h : Store.Locks l now item locked) {name : String}
    (hopen : locked.IsOpen now name) : l.IsOpen now name := by
  rcases h with ⟨-, rfl⟩ | ⟨lock, -, rfl⟩
  · exact hopen
  · intro row hr hname
    have hrow := hopen _ (List.mem_map_of_mem hr)
    split at hrow
    · exact hrow hname
    · exact hrow hname

/-- A claimed item is spent when it is completed. -/
theorem spends_complete (hs : l.Sound sharding bound) (h : l.IsCandidate now row item)
    {locked : Lane} (hlocks : Store.Locks (l.lease now row item) now (item.attempted now) locked)
    (step : locked.Step sharding now bound (.completed (item.attempted now)) l' used messages) :
    l.Spends now item l' := by
  intro b hb hopen
  obtain ⟨hne, hold, hbefore⟩ := step.spares hb hopen
  obtain ⟨a, ha, hid, hname⟩ := mem_lease hs h (hlocks.items ▸ hold)
  refine ⟨hne, a, ha, hid, ?_⟩
  by_cases hsame : b.queueName = item.queueName
  · rw [hname, hsame]
    exact h.isOpen hs
  · rw [hname]
    exact (isOpen_of_lease h (isOpen_of_locks hlocks (hbefore hsame))).2

end Lane

namespace Store

variable {s : Store} {now : Instant} {shard : Shard} {lane lane' : Lane} {row : Row}
variable {item : WorkItem}

/-- The numbers of the items of all shards whose queue is open. -/
def unspent (s : Store) (now : Instant) : List WorkItemId :=
  s.lanes.flatMap (·.unspent now)

theorem length_unspent_replace (hs : s.Sound) (mem : lane ∈ s.lanes)
    (hshard : lane'.shard = lane.shard) (now : Instant) (used : Int)
    (messages : List BlockingMessage) :
    ((s.replace lane' used messages).unspent now).length + (lane.unspent now).length =
      (s.unspent now).length + (lane'.unspent now).length := by
  have hall := (flatMap_replace hs mem hshard used messages (·.unspent now) fun _ => rfl).length_eq
  rwa [List.length_append, List.length_append] at hall

theorem length_unspent_le (s : Store) (now : Instant) :
    (s.unspent now).length ≤ s.pendingCount := by
  unfold unspent pendingCount
  induction s.lanes with
  | nil => exact Nat.le_refl 0
  | cons lane rest ih =>
    rw [List.flatMap_cons, List.length_append]
    exact Nat.add_le_add (lane.length_unspent_le now) ih

/-- After a claim the lane of the shard is the leased one. -/
theorem Claims.lane? (h : s.Claims now shard lane row item) :
    (s.setLane (lane.poll.lease now row item)).lane? shard =
      some (lane.poll.lease now row item) :=
  lane?_setLane_self h.here (Lane.shard_poll lane)

/-- An item that was claimed can be completed, however much time has passed, if nothing else has
    happened. -/
theorem Claims.complete_later (h : s.Claims now shard lane row item) (hs : s.Sound)
    (later : Instant) :
    ∃ locked lane' used messages,
      Locks (lane.poll.lease now row item) later (item.attempted now) locked ∧
      locked.Step s.sharding later s.nextId (.completed (item.attempted now)) lane' used messages ∧
      (s.setLane (lane.poll.lease now row item)).complete later item.id shard =
        (.ok (), s.replace lane' used messages) ∧
      ∃ before, Moves later (s.setLane (lane.poll.lease now row item))
          (before ++ [.completed (item.attempted now)]) (s.replace lane' used messages) ∧
        ∀ event ∈ before, event.Idle := by
  obtain ⟨events, hclaim, -⟩ := h.idles
  have hcandidate := h.isCandidate hs
  have hfree : (lane.poll.lease now row item).blockedBy item.queueName = [] := by
    rw [hcandidate.name]
    exact hcandidate.claimable.2.2.2.2
  have hunlocked : row.lock = none := hcandidate.claimable.2.2.2.1
  have hhead : (lane.poll.lease now row item).head (item.attempted now).id = .ok (_, _) :=
    Lane.head_lease (hs.lane h.here).poll hcandidate
  obtain ⟨locked, lane', used, messages, hlocks, step, hrun, hmoves⟩ :=
    complete_head (hclaim.sound hs) h.lane? hhead hfree (fun lock _ => Or.inl hunlocked) later
  have hshard : lane'.shard = (lane.poll.lease now row item).shard :=
    step.shard.trans hlocks.shard
  rw [replace_setLane s hshard.symm] at hrun hmoves
  exact ⟨locked, lane', used, messages, hlocks, step, hrun, hmoves⟩

/-- An item that was just claimed can be completed. -/
theorem Claims.complete (h : s.Claims now shard lane row item) (hs : s.Sound) :
    ∃ locked lane' used messages,
      Locks (lane.poll.lease now row item) now (item.attempted now) locked ∧
      locked.Step s.sharding now s.nextId (.completed (item.attempted now)) lane' used messages ∧
      (s.setLane (lane.poll.lease now row item)).complete now item.id shard =
        (.ok (), s.replace lane' used messages) ∧
      ∃ before, Moves now s (before ++ [.completed (item.attempted now)])
          (s.replace lane' used messages) ∧
        ∀ event ∈ before, event.Idle := by
  obtain ⟨events, hclaim, hidle⟩ := h.idles
  obtain ⟨locked, lane', used, messages, hlocks, step, hrun, before, hmoves, hbefore⟩ :=
    h.complete_later hs now
  refine ⟨locked, lane', used, messages, hlocks, step, hrun, events ++ before, ?_, ?_⟩
  · rw [List.append_assoc]
    exact hclaim.append hmoves
  · intro event he
    rcases List.mem_append.1 he with he | he
    · exact hidle event he
    · exact hbefore event he

/-- The row of an item that was just claimed can be changed. -/
theorem Claims.settleRow (h : s.Claims now shard lane row item) (hs : s.Sound) (f : Row → Row) :
    (s.setLane (lane.poll.lease now row item)).settleRow item.id shard f =
      (.ok (), s.setLane ((lane.poll.lease now row item).updateRow item.queueName f)) := by
  unfold Store.settleRow withLane
  rw [h.lane?]
  dsimp only
  rw [Lane.head_lease (hs.lane h.here).poll (h.isCandidate hs)]
  exact congrArg (Prod.mk _) (setLane_setLane s rfl)

/-- A claimed item is used up by whatever spends it in the lane of its shard. -/
theorem Claims.length_unspent_lt (h : s.Claims now shard lane row item) (hs : s.Sound)
    (hshard : lane'.shard = lane.shard) (hspent : lane.poll.Spends now item lane') {used : Int}
    {messages : List BlockingMessage} (hs' : (s.replace lane' used messages).Sound) :
    ((s.replace lane' used messages).unspent now).length < (s.unspent now).length := by
  obtain ⟨hmem, -⟩ := mem_of_lane? h.here
  have hcandidate := h.isCandidate hs
  have hpoll := (hs.lane h.here).poll
  have hnew : lane'.receive messages ∈ (s.replace lane' used messages).lanes :=
    mem_replace.2 ⟨lane, hmem, by rw [if_pos hshard.symm]⟩
  have hlane : lane'.Sound _ _ :=
    (hs'.lanes _ hnew).congr rfl rfl rfl (hs'.lanes _ hnew).blocks
  have hlt : (lane'.unspent now).length < (lane.poll.unspent now).length :=
    hspent.length_lt hlane hcandidate.item (hcandidate.isOpen hpoll)
  have hle : (lane.poll.unspent now).length ≤ (lane.unspent now).length :=
    Lane.unspent_poll (hs.lane h.here)
  have hall := length_unspent_replace hs hmem hshard now used messages
  omega

theorem Claims.change (h : s.Claims now shard lane row item) {c : RowChange}
    (fits : ∀ row, c.Fits row) :
    ∃ events, Moves now s events
      (s.setLane ((lane.poll.lease now row item).updateRow item.queueName (c.apply now))) := by
  obtain ⟨events, hclaim, -⟩ := h.idles
  let leased : Lane := lane.poll.lease now row item
  have hmove : Move now (s.setLane leased) (.changed ⟨item.queueName, leased.shard⟩ c) _ :=
    Move.updateRow (mem_of_lane? h.lane?).1 fun row _ => fits row
  have hshard : leased.shard = (leased.updateRow item.queueName (c.apply now)).shard := rfl
  rw [setLane_setLane s hshard] at hmove
  exact ⟨_, hclaim.append (.single hmove)⟩

/-- A claimed item is used up by a change after which its queue is not open. -/
theorem Claims.length_unspent_change (h : s.Claims now shard lane row item) (hs : s.Sound)
    {c : RowChange} (fits : ∀ row, c.Fits row)
    (hlocked : ∀ row, ¬ (c.apply now row).lockedUntil < now) :
    ((s.setLane ((lane.poll.lease now row item).updateRow item.queueName
      (c.apply now))).unspent now).length < (s.unspent now).length := by
  obtain ⟨events, hmoves⟩ := h.change fits
  let settled : Lane := (lane.poll.lease now row item).updateRow item.queueName (c.apply now)
  have hshard : settled.shard = lane.shard := Lane.shard_poll lane
  have hspent : lane.poll.Spends now item settled :=
    Lane.spends_settleRow (hs.lane h.here).poll (h.isCandidate hs) (c.name_apply now) hlocked
  have hsound : (s.replace settled 0 []).Sound := replace_zero_nil s settled ▸ hmoves.sound hs
  rw [← replace_zero_nil]
  exact h.length_unspent_lt hs hshard hspent hsound

end Store

end Courier
