/-
  Courier/Proofs/Store/Continuity.lean
  ====================================
  **What an item keeps as long as a store holds it.**

  While an item is pending it may be linked, handed out and relieved of a lock that
  it was going to put on its queue; nothing else about it ever changes
  (`WorkItem.Continues`), and in the archive nothing changes at all.  So whatever a
  store holds after moves that file nothing goes back to what it held before, except
  for placeholders, which bear new numbers (`Store.Moves.held`).
-/
import Courier.Proofs.Store.Conservation

namespace Courier

open Courier.Time

/-! ### One item at two moments -/

/-- Whether an item is another one at a later moment.  `taken` tells the locks that were taken back
    from a queue meanwhile. -/
structure WorkItem.Continues (taken : QueueRef → String → Prop) (b a : WorkItem) : Prop where
  id : b.id = a.id
  shard : b.shard = a.shard
  url : b.url = a.url
  queueName : b.queueName = a.queueName
  debugInfo : b.debugInfo = a.debugInfo
  createdAt : b.createdAt = a.createdAt
  internal : b.internal = a.internal
  blocking : b.blocking = a.blocking
  linked : a.isIngested = true → b.isIngested = true
  tried : a.lastAttemptedAt.isSome = true → b.lastAttemptedAt.isSome = true
  lock : b.lockWhenComplete = a.lockWhenComplete ∨
    ∃ lock, a.lockWhenComplete = some lock ∧ b.lockWhenComplete = none ∧ taken a.queueRef lock

namespace WorkItem.Continues

variable {taken : QueueRef → String → Prop} {a b c : WorkItem}

theorem refl (taken : QueueRef → String → Prop) (a : WorkItem) : a.Continues taken a :=
  ⟨rfl, rfl, rfl, rfl, rfl, rfl, rfl, rfl, fun h => h, fun h => h, Or.inl rfl⟩

theorem queueRef (h : b.Continues taken a) : b.queueRef = a.queueRef := by
  unfold WorkItem.queueRef
  rw [h.queueName, h.shard]

theorem trans (h : c.Continues taken b) (h' : b.Continues taken a) : c.Continues taken a where
  id := h.id.trans h'.id
  shard := h.shard.trans h'.shard
  url := h.url.trans h'.url
  queueName := h.queueName.trans h'.queueName
  debugInfo := h.debugInfo.trans h'.debugInfo
  createdAt := h.createdAt.trans h'.createdAt
  internal := h.internal.trans h'.internal
  blocking := h.blocking.trans h'.blocking
  linked := h.linked ∘ h'.linked
  tried := h.tried ∘ h'.tried
  lock := by
    rcases h.lock with hsame | ⟨lock, hhad, hnone, htaken⟩
    · rcases h'.lock with hsame' | ⟨lock, hhad, hnone, htaken⟩
      · exact Or.inl (hsame.trans hsame')
      · exact Or.inr ⟨lock, hhad, hsame.trans hnone, htaken⟩
    · rcases h'.lock with hsame' | ⟨other, -, hnone', -⟩
      · exact Or.inr ⟨lock, hsame'.symm.trans hhad, hnone, h'.queueRef ▸ htaken⟩
      · -- a lock that is gone already cannot be taken back once more
        rw [hnone'] at hhad
        cases hhad

theorem mono {taken' : QueueRef → String → Prop} (h : b.Continues taken a)
    (hle : ∀ queue lock, taken queue lock → taken' queue lock) : b.Continues taken' a :=
  { h with
    lock := h.lock.imp_right fun ⟨lock, hhad, hnone, htaken⟩ =>
      ⟨lock, hhad, hnone, hle _ _ htaken⟩ }

theorem linking (taken : QueueRef → String → Prop) (a : WorkItem) :
    ({ a with isIngested := true } : WorkItem).Continues taken a :=
  { refl taken a with linked := fun _ => rfl }

theorem attempted (taken : QueueRef → String → Prop) (a : WorkItem) (now : Instant) :
    (a.attempted now).Continues taken a :=
  { refl taken a with tried := fun _ => rfl }

theorem released {lock : String} (hhad : a.lockWhenComplete = some lock)
    (htaken : taken a.queueRef lock) : a.released.Continues taken a :=
  { refl taken a with lock := Or.inr ⟨lock, hhad, rfl, htaken⟩ }

end WorkItem.Continues

/-- The lock that an event takes back from the head of a queue. -/
def Event.Takes (queue : QueueRef) (lock : String) : Event → Prop
  | .released item => item.queueRef = queue ∧ item.lockWhenComplete = some lock
  | _ => False

/-! ### What a lane holds -/

namespace Lane

variable {sharding : Sharding} {now : Instant} {fresh : WorkItemId} {l l' : Lane} {event : Event}
variable {used : Int} {messages : List BlockingMessage} {item b : WorkItem}

/-- The items of a lane, pending ones first. -/
def held (l : Lane) : List WorkItem := l.items ++ l.completed.map (·.item)

theorem mem_held : b ∈ l.held ↔ b ∈ l.items ∨ ∃ done ∈ l.completed, done.item = b := by
  unfold held
  rw [List.mem_append, List.mem_map]

theorem ids_eq_held (l : Lane) : l.ids = l.held.map (·.id) := by
  unfold ids held
  rw [List.map_append, List.map_map]
  rfl

theorem held_addItem : b ∈ (l.addItem item).held ↔ b ∈ l.held ∨ b = item := by
  have hitems : b ∈ (l.addItem item).items ↔ b ∈ l.items ∨ b = item := by
    unfold addItem
    rw [List.mem_append, List.mem_singleton]
  rw [mem_held, mem_held, hitems, or_right_comm]
  rfl

theorem held_of_retire (hi : item ∈ l.items) (hb : b ∈ (l.retire item now).held) :
    b ∈ l.held := by
  rcases mem_held.1 hb with hp | ⟨done, hd, rfl⟩
  · exact mem_held.2 (Or.inl (mem_items_retire.1 hp).1)
  · rcases List.mem_append.1 hd with hold | hnew
    · exact mem_held.2 (Or.inr ⟨done, hold, rfl⟩)
    · rw [List.mem_singleton.1 hnew]
      exact mem_held.2 (Or.inl hi)

/-- Items that are changed one by one continue the items before. -/
theorem held_of_map {taken : QueueRef → String → Prop} {g : WorkItem → WorkItem}
    (hitems : l'.items = l.items.map g) (hcompleted : l'.completed = l.completed)
    (hg : ∀ a ∈ l.items, (g a).Continues taken a) (hb : b ∈ l'.held) :
    ∃ a ∈ l.held, b.Continues taken a := by
  rcases mem_held.1 hb with hp | hd
  · rw [hitems] at hp
    obtain ⟨a, ha, rfl⟩ := List.mem_map.1 hp
    exact ⟨a, mem_held.2 (Or.inl ha), hg a ha⟩
  · rw [hcompleted] at hd
    exact ⟨b, mem_held.2 (Or.inr hd), .refl _ b⟩

theorem held_of_setItem {taken : QueueRef → String → Prop} (h : l.Sound sharding fresh)
    {old new : WorkItem} (ho : old ∈ l.items) (hn : new.Continues taken old)
    (hb : b ∈ (l.setItem new).held) : ∃ a ∈ l.held, b.Continues taken a := by
  have hitems : (l.setItem new).items =
      l.items.map fun other => if other.id = new.id then new else other := rfl
  refine held_of_map hitems rfl (fun a ha => ?_) hb
  split
  · rename_i hid
    rw [h.item_eq ha ho (hid.trans hn.id)]
    exact hn
  · exact .refl _ a

/-- What a lane holds after a step that files nothing it held before, a new placeholder apart. -/
theorem Step.held (h : l.Step sharding now fresh event l' used messages)
    (hs : l.Sound sharding fresh) (hfiled : ∀ id queue, event ≠ .filed id queue)
    (hb : b ∈ l'.held) :
    (∃ a ∈ l.held, b.Continues (event.Takes · ·) a) ∨ (b.isPlaceholder = true ∧ fresh ≤ b.id) := by
  have hkept : b ∈ l.held →
      (∃ a ∈ l.held, b.Continues (event.Takes · ·) a) ∨ (b.isPlaceholder = true ∧ fresh ≤ b.id) :=
    fun hold => Or.inl ⟨b, hold, .refl _ b⟩
  cases h with
  | @file p isFor here single => exact absurd rfl (hfiled fresh p.queue)
  | reserve free =>
    rcases held_addItem.1 hb with hold | rfl
    · exact hkept hold
    · exact Or.inr ⟨rfl, Int.le_refl _⟩
  | poll =>
    refine Or.inl (held_of_map (g := fun item => { item with isIngested := true }) ?_ ?_ ?_ hb)
    · exact items_poll l
    · exact completed_poll l
    · exact fun a _ => .linking _ a
  | claim first head =>
    exact Or.inl (held_of_setItem (l := l) hs (mem_of_item? head).1 (.attempted _ _ now) hb)
  | change fits => exact hkept hb
  | release row? head deferred =>
    refine Or.inl (held_of_setItem hs (mem_of_item? head).1 ?_ hb)
    exact .released deferred ⟨rfl, deferred⟩
  | purge =>
    refine hkept (mem_held.2 ?_)
    rcases mem_held.1 hb with hp | ⟨done, hd, rfl⟩
    · exact Or.inl hp
    · exact Or.inr ⟨done, (Store.purged_sublist _ _ _).subset hd, rfl⟩
  | advance head free locked successor => exact hkept (held_of_retire (mem_of_head head).1 hb)
  | @relay item row head free locked last kept =>
    let placeholder : WorkItem := .placeholder fresh item.queueRef item.blocking now
    have hmem : item ∈ (l.addItem placeholder).items :=
      List.mem_append_left _ (mem_of_head head).1
    rcases held_addItem.1 (held_of_retire hmem hb) with hold | rfl
    · exact hkept hold
    · exact Or.inr ⟨rfl, Int.le_refl _⟩
  | finish head free unlocked last given => exact hkept (held_of_retire (mem_of_head head).1 hb)

end Lane

namespace Store

variable {sharding : Sharding} {s s' : Store} {now : Instant} {event : Event} {b : WorkItem}

/-! ### What a store holds -/

/-- The items of a store, lane by lane. -/
def held (s : Store) : List WorkItem := s.lanes.flatMap Lane.held

theorem mem_held : b ∈ s.held ↔ ∃ lane ∈ s.lanes, b ∈ lane.held := List.mem_flatMap

theorem ids_eq_held (s : Store) : s.ids = s.held.map (·.id) := by
  unfold ids held
  rw [List.map_flatMap]
  exact congrArg List.flatten (List.map_congr_left fun lane _ => lane.ids_eq_held)

theorem held_empty (sharding : Sharding) : (empty sharding).held = [] := by
  refine List.flatMap_eq_nil_iff.2 fun lane hl => ?_
  obtain ⟨shard, -, rfl⟩ := List.mem_map.1 hl
  rfl

/-- Items of a store whose numbers are distinct are told apart by them. -/
theorem held_eq (hn : s.ids.Nodup) {a : WorkItem} (ha : a ∈ s.held) (hb : b ∈ s.held)
    (hid : a.id = b.id) : a = b :=
  Keyed.eq_of_mem (s.ids_eq_held ▸ hn) ha hb hid

theorem mem_held_replace {lane lane' : Lane} {used : Int} {messages : List BlockingMessage}
    (hs : s.Sound) (mem : lane ∈ s.lanes) (hshard : lane'.shard = lane.shard) :
    b ∈ (s.replace lane' used messages).held ↔
      b ∈ lane'.held ∨ ∃ other ∈ s.lanes, other ≠ lane ∧ b ∈ other.held := by
  constructor
  · intro hb
    obtain ⟨new, hnew, hb⟩ := mem_held.1 hb
    obtain ⟨old, hold, rfl⟩ := mem_replace.1 hnew
    by_cases hsame : old = lane
    · rw [hsame, if_pos hshard.symm] at hb
      exact Or.inl hb
    · have hne : old.shard ≠ lane'.shard := fun h =>
        hsame (hs.lane_eq hold mem (h.trans hshard))
      rw [if_neg hne] at hb
      exact Or.inr ⟨old, hold, hsame, hb⟩
  · rintro (hb | ⟨other, ho, hne, hb⟩)
    · refine mem_held.2 ⟨_, mem_replace.2 ⟨lane, mem, rfl⟩, ?_⟩
      rw [if_pos hshard.symm]
      exact hb
    · refine mem_held.2 ⟨_, mem_replace.2 ⟨other, ho, rfl⟩, ?_⟩
      rw [if_neg fun h => hne (hs.lane_eq ho mem (h.trans hshard))]
      exact hb

theorem Move.held (hs : s.Sound) (h : Move now s event s')
    (hfiled : ∀ id queue, event ≠ .filed id queue) (hb : b ∈ s'.held) :
    (∃ a ∈ s.held, b.Continues (event.Takes · ·) a) ∨
      (b.isPlaceholder = true ∧ s.nextId ≤ b.id) := by
  cases h with
  | record jobs => exact Or.inl ⟨b, hb, .refl _ b⟩
  | clear =>
    obtain ⟨lane, hl, hb⟩ := mem_held.1 hb
    obtain ⟨old, -, rfl⟩ := List.mem_map.1 hl
    cases hb
  | @lane lane lane' event used messages mem step =>
    rcases (mem_held_replace hs mem step.shard).1 hb with hb | ⟨other, ho, -, hb⟩
    · rcases step.held (hs.lanes lane mem) hfiled hb with ⟨a, ha, hsame⟩ | hnew
      · exact Or.inl ⟨a, mem_held.2 ⟨lane, mem, ha⟩, hsame⟩
      · exact Or.inr hnew
    · exact Or.inl ⟨b, mem_held.2 ⟨other, ho, hb⟩, .refl _ b⟩

/-- What is held after moves that file nothing was held before, new placeholders apart. -/
theorem Moves.held {events : List Event} (hs : s.Sound) (h : Moves now s events s')
    (hfiled : ∀ event ∈ events, ∀ id queue, event ≠ .filed id queue) (hb : b ∈ s'.held) :
    (∃ a ∈ s.held, b.Continues (fun queue lock => ∃ event ∈ events, event.Takes queue lock) a) ∨
      (b.isPlaceholder = true ∧ s.nextId ≤ b.id) := by
  induction h with
  | nil s => exact Or.inl ⟨b, hb, .refl _ b⟩
  | @cons s mid s' event events move rest ih =>
    have hlater := ih (move.sound hs) (fun other ho => hfiled other (List.mem_cons_of_mem _ ho)) hb
    have hfirst := fun {a : WorkItem} => move.held (b := a) hs (hfiled event List.mem_cons_self)
    rcases hlater with ⟨a, ha, hsame⟩ | ⟨hplace, hnew⟩
    · have hsame' : b.Continues
          (fun queue lock => ∃ event' ∈ event :: events, event'.Takes queue lock) a :=
        hsame.mono fun queue lock ⟨other, ho, htakes⟩ =>
          ⟨other, List.mem_cons_of_mem _ ho, htakes⟩
      rcases hfirst ha with ⟨old, hold, hbefore⟩ | ⟨hplace, hnew⟩
      · refine Or.inl ⟨old, hold, hsame'.trans (hbefore.mono fun queue lock htakes => ?_)⟩
        exact ⟨event, List.mem_cons_self, htakes⟩
      · refine Or.inr ⟨?_, hsame.id ▸ hnew⟩
        unfold WorkItem.isPlaceholder at hplace ⊢
        rw [hsame.url]
        exact hplace
    · exact Or.inr ⟨hplace, Int.le_trans (move.ascends default).1 hnew⟩

end Store

end Courier
