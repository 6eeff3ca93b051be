/-
  Courier/Proofs/Store/Renumber.lean
  ==================================
  **Item numbers that are exchanged for others.**

  A number that is given out ends up in an item, in the row that it heads, in the
  token of what it blocks and in the archive; `Lane.renumber` replaces it in all of
  these places at once.  Every number that a reachable store mentions anywhere was
  given out before (`Store.reached_numbered`), so a store does not change when
  numbers are exchanged that are not given out yet (`Lane.renumber_eq_self`).  Edits
  of a lane go along with an exchange of numbers, and so do the effects of a
  completion (`Effect.foldl_onLane_renumber`).
-/
import Courier.Proofs.Store.Heir
import Mathlib.Logic.Equiv.Basic

namespace Courier

open Courier.Time

/-! ### Exchanging numbers -/

section Renumber

variable (r : Equiv.Perm WorkItemId)

def WorkItem.renumber (item : WorkItem) : WorkItem := { item with id := r item.id }

def CompletedItem.renumber (done : CompletedItem) : CompletedItem :=
  { done with item := done.item.renumber r }

def Row.renumber (row : Row) : Row := { row with head := r row.head }

def BlockToken.renumber (token : BlockToken) : BlockToken :=
  { token with workItemId := r token.workItemId }

def BlockingMessage.renumber (m : BlockingMessage) : BlockingMessage :=
  { m with token := m.token.renumber r }

/-- A lane in which every item number is replaced. -/
def Lane.renumber (l : Lane) : Lane :=
  { l with
    items := l.items.map (·.renumber r)
    completed := l.completed.map (·.renumber r)
    rows := l.rows.map (·.renumber r)
    blocks := l.blocks.map fun entry => (entry.1, entry.2.map (·.renumber r))
    mailbox := l.mailbox.map (·.renumber r) }

/-- A store in which every item number is replaced; the next one stays as it is. -/
def Store.renumber (s : Store) : Store := { s with lanes := s.lanes.map (·.renumber r) }

/-- An effect in which every item number is replaced. -/
def Effect.renumber : Effect → Effect
  | .putLock queue lock => .putLock queue lock
  | .addPlaceholder item => .addPlaceholder (item.renumber r)
  | .post m => .post (m.renumber r)
  | .rehead queue head lockedUntil => .rehead queue (r head) lockedUntil
  | .removeRow queue => .removeRow queue
  | .removeItem shard id => .removeItem shard (r id)
  | .archive shard done => .archive shard (done.renumber r)

end Renumber

/-! ### Numbers that were given out -/

namespace Lane

variable {sharding : Sharding} {now : Instant} {fresh bound : WorkItemId} {l l' : Lane}
variable {event : Event} {used : Int} {messages : List BlockingMessage}

/-- Whether the numbers in the archive, in the blocks and in the mailbox of a lane are below a
    bound. -/
structure Numbered (bound : WorkItemId) (l : Lane) : Prop where
  completed : ∀ done ∈ l.completed, done.item.id < bound
  blocks : ∀ entry ∈ l.blocks, ∀ token ∈ entry.2, token.workItemId < bound
  mailbox : ∀ m ∈ l.mailbox, m.token.workItemId < bound

theorem Numbered.mono (h : l.Numbered bound) {later : WorkItemId} (hle : bound ≤ later) :
    l.Numbered later where
  completed done hd := Int.lt_of_lt_of_le (h.completed done hd) hle
  blocks entry he token ht := Int.lt_of_lt_of_le (h.blocks entry he token ht) hle
  mailbox m hm := Int.lt_of_lt_of_le (h.mailbox m hm) hle

theorem Numbered.receive (h : l.Numbered bound)
    (hm : ∀ m ∈ messages, m.token.workItemId < bound) : (l.receive messages).Numbered bound :=
  { h with
    mailbox := fun m hin => by
      rcases List.mem_append.1 hin with hold | hnew
      · exact h.mailbox m hold
      · exact hm m (List.mem_filter.1 hnew).1 }

theorem Numbered.empty (shard : Shard) : (Lane.empty shard).Numbered bound where
  completed _ h := by cases h
  blocks _ h := by cases h
  mailbox _ h := by cases h

theorem mem_change {m : BlockingMessage} {tokens : List BlockToken} {token : BlockToken}
    (h : token ∈ m.change tokens) : token = m.token ∨ token ∈ tokens := by
  unfold BlockingMessage.change at h
  split at h
  · split at h
    · exact Or.inr h
    · rcases List.mem_append.1 h with hold | hnew
      · exact Or.inr hold
      · exact Or.inl (List.mem_singleton.1 hnew)
  · exact Or.inr (List.mem_filter.1 h).1

/-- Applying a message keeps numbers below a bound. -/
theorem blocks_applyMessage_lt (h : ∀ entry ∈ l.blocks, ∀ token ∈ entry.2, token.workItemId < bound)
    {m : BlockingMessage} (hm : m.token.workItemId < bound) :
    ∀ entry ∈ (l.applyMessage m).blocks, ∀ token ∈ entry.2, token.workItemId < bound := by
  have hblockedBy : ∀ token ∈ l.blockedBy m.target.name, token.workItemId < bound := by
    intro token ht
    unfold blockedBy at ht
    cases hfound : l.blocks.find? (·.1 = m.target.name) with
    | none =>
      rw [hfound] at ht
      cases ht
    | some entry =>
      rw [hfound] at ht
      exact h entry (List.mem_of_find?_eq_some hfound) token ht
  intro entry he token ht
  unfold applyMessage setBlockedBy at he
  dsimp only at he
  split at he
  · exact h entry (List.mem_filter.1 he).1 token ht
  · rcases List.mem_append.1 he with hold | hnew
    · exact h entry (List.mem_filter.1 hold).1 token ht
    · rw [List.mem_singleton.1 hnew] at ht
      rcases mem_change ht with rfl | hin
      · exact hm
      · exact hblockedBy token hin

theorem Numbered.poll (h : l.Numbered bound) : l.poll.Numbered bound := by
  have hfold : ∀ {l : Lane} {messages : List BlockingMessage},
      (∀ entry ∈ l.blocks, ∀ token ∈ entry.2, token.workItemId < bound) →
      (∀ m ∈ messages, m.token.workItemId < bound) →
      ∀ entry ∈ (messages.foldl applyMessage l).blocks, ∀ token ∈ entry.2,
        token.workItemId < bound := by
    intro l messages hl hm
    induction messages generalizing l with
    | nil => exact hl
    | cons m rest ih =>
      refine ih (blocks_applyMessage_lt hl (hm m List.mem_cons_self)) fun other ho => ?_
      exact hm other (List.mem_cons_of_mem _ ho)
  constructor
  case completed =>
    rw [completed_poll]
    exact h.completed
  case blocks => exact hfold h.blocks h.mailbox
  case mailbox =>
    rw [mailbox_poll]
    exact fun m hm => absurd hm List.not_mem_nil

/-- A step keeps the numbers of a lane below the next one, and so it does those that it posts. -/
theorem Step.numbered (h : l.Step sharding now fresh event l' used messages)
    (hs : l.Sound sharding fresh) (hn : l.Numbered fresh) :
    l'.Numbered (fresh + used) ∧ ∀ m ∈ messages, m.token.workItemId < fresh + used := by
  have hle : fresh ≤ fresh + used := Int.le_add_of_nonneg_right h.used_nonneg
  have hnone : ∀ m ∈ ([] : List BlockingMessage), m.token.workItemId < fresh + used :=
    fun m hm => absurd hm List.not_mem_nil
  have hkept : l.Numbered (fresh + used) := hn.mono hle
  have hretired : ∀ {item : WorkItem} {row : Row}, l.head item.id = .ok (item, row) →
      item.id < fresh + used :=
    fun hhead => Int.lt_of_lt_of_le (hs.below _ (mem_of_head hhead).1) hle
  have harchive : ∀ {item : WorkItem}, item.id < fresh + used →
      ∀ done ∈ l.completed ++ [⟨item, now⟩], done.item.id < fresh + used := by
    intro item hid done hd
    rcases List.mem_append.1 hd with hold | hnew
    · exact hkept.completed done hold
    · rw [List.mem_singleton.1 hnew]
      exact hid
  have hposted : ∀ {blocking : Blocking} {isCreatingBlock : Bool} {id : WorkItemId},
      id < fresh + used → ∀ m ∈ blocking.messages isCreatingBlock ⟨id, l.shard⟩,
        m.token.workItemId < fresh + used := by
    intro blocking isCreatingBlock id hid m hm
    rw [Blocking.token_of_mem hm]
    exact hid
  cases h with
  | file isFor here single =>
    exact ⟨{ hkept with }, hposted (Int.lt_add_one_of_le (Int.le_refl _))⟩
  | reserve free => exact ⟨{ hkept with }, hnone⟩
  | poll => exact ⟨hn.poll.mono hle, hnone⟩
  | claim first head => exact ⟨{ hkept with }, hnone⟩
  | change fits => exact ⟨{ hkept with }, hnone⟩
  | release row? head deferred => exact ⟨{ hkept with }, hnone⟩
  | purge =>
    refine ⟨{ hkept with completed := fun done hd => ?_ }, hnone⟩
    exact hkept.completed done ((Store.purged_sublist _ _ _).subset hd)
  | advance head free locked successor =>
    exact ⟨{ hkept with completed := harchive (hretired head) }, hposted (hretired head)⟩
  | relay head free locked last kept =>
    refine ⟨{ hkept with completed := harchive (hretired head) }, fun m hm => ?_⟩
    rcases List.mem_append.1 hm with hm | hm
    · exact hposted (Int.lt_add_one_of_le (Int.le_refl _)) m hm
    · exact hposted (hretired head) m hm
  | finish head free unlocked last given =>
    exact ⟨{ hkept with completed := harchive (hretired head) }, hposted (hretired head)⟩

end Lane

namespace Store

variable {sharding : Sharding} {s s' : Store} {now : Instant} {event : Event}

theorem Move.numbered (h : Move now s event s') (hs : s.Sound)
    (hn : ∀ lane ∈ s.lanes, lane.Numbered s.nextId) :
    ∀ lane ∈ s'.lanes, lane.Numbered s'.nextId := by
  intro other ho
  cases h with
  | record jobs => exact hn other ho
  | clear =>
    obtain ⟨old, -, rfl⟩ := List.mem_map.1 ho
    exact .empty old.shard
  | @lane lane lane' _ used messages mem step =>
    obtain ⟨hlane, hposted⟩ := step.numbered (hs.lanes lane mem) (hn lane mem)
    obtain ⟨old, hold, rfl⟩ := mem_replace.1 ho
    refine Lane.Numbered.receive ?_ hposted
    split
    · exact hlane
    · exact (hn old hold).mono (Int.le_add_of_nonneg_right step.used_nonneg)

/-- Every number that a reachable store mentions was given out before. -/
theorem reached_numbered (calls : List (Call sharding)) :
    ∀ lane ∈ (reached calls).lanes, lane.Numbered (reached calls).nextId := by
  refine after_keeps (P := fun s => ∀ lane ∈ s.lanes, lane.Numbered s.nextId)
    (fun hs move hn => move.numbered hs hn) (.empty sharding) rfl ?_ calls
  intro lane hl
  obtain ⟨shard, -, rfl⟩ := List.mem_map.1 hl
  exact .empty shard

end Store

/-! ### Edits go along with an exchange of numbers -/

section Renumber

variable {r : Equiv.Perm WorkItemId}

theorem BlockToken.renumber_eq_self {token : BlockToken}
    (h : r token.workItemId = token.workItemId) : token.renumber r = token := by
  unfold BlockToken.renumber
  rw [h]

theorem WorkItem.renumber_eq_self {item : WorkItem} (h : r item.id = item.id) :
    item.renumber r = item := by
  unfold WorkItem.renumber
  rw [h]

namespace Lane

variable {sharding : Sharding} {bound : WorkItemId} {l : Lane}

/-- A lane does not change when only numbers are exchanged that are not given out yet. -/
theorem renumber_eq_self (hs : l.Sound sharding bound) (hn : l.Numbered bound)
    (hr : ∀ id, id < bound → r id = id) : l.renumber r = l := by
  have hitems : l.items.map (·.renumber r) = l.items := by
    refine (List.map_congr_left fun item hi => ?_).trans (List.map_id _)
    exact WorkItem.renumber_eq_self (hr _ (hs.below item hi))
  have hcompleted : l.completed.map (·.renumber r) = l.completed := by
    refine (List.map_congr_left fun done hd => ?_).trans (List.map_id _)
    unfold CompletedItem.renumber
    rw [WorkItem.renumber_eq_self (hr _ (hn.completed done hd))]
    rfl
  have hrows : l.rows.map (·.renumber r) = l.rows := by
    refine (List.map_congr_left fun row hrow => ?_).trans (List.map_id _)
    obtain ⟨item, hi, hid, -⟩ := hs.head row hrow
    unfold Row.renumber
    rw [hr row.head (hid ▸ hs.below item hi)]
    rfl
  have hblocks : (l.blocks.map fun entry => (entry.1, entry.2.map (·.renumber r))) = l.blocks := by
    refine (List.map_congr_left fun entry he => ?_).trans (List.map_id _)
    have htokens : entry.2.map (·.renumber r) = entry.2 := by
      refine (List.map_congr_left fun token ht => ?_).trans (List.map_id _)
      exact BlockToken.renumber_eq_self (hr _ (hn.blocks entry he token ht))
    rw [htokens]
    rfl
  have hmailbox : l.mailbox.map (·.renumber r) = l.mailbox := by
    refine (List.map_congr_left fun m hm => ?_).trans (List.map_id _)
    unfold BlockingMessage.renumber
    rw [BlockToken.renumber_eq_self (hr _ (hn.mailbox m hm))]
    rfl
  unfold renumber
  rw [hitems, hcompleted, hrows, hblocks, hmailbox]

theorem renumber_refl (l : Lane) : l.renumber (Equiv.refl _) = l := by
  have hitems : l.items.map (·.renumber (Equiv.refl _)) = l.items := List.map_id _
  have hcompleted : l.completed.map (·.renumber (Equiv.refl _)) = l.completed := List.map_id _
  have hrows : l.rows.map (·.renumber (Equiv.refl _)) = l.rows := List.map_id _
  have hblocks : (l.blocks.map fun entry =>
      (entry.1, entry.2.map (·.renumber (Equiv.refl _)))) = l.blocks := by
    refine (List.map_congr_left fun entry _ => ?_).trans (List.map_id _)
    exact congrArg (Prod.mk entry.1) (List.map_id _)
  have hmailbox : l.mailbox.map (·.renumber (Equiv.refl _)) = l.mailbox := List.map_id _
  unfold renumber
  rw [hitems, hcompleted, hrows, hblocks, hmailbox]

theorem renumber_addItem (l : Lane) (item : WorkItem) :
    (l.addItem item).renumber r = (l.renumber r).addItem (item.renumber r) := by
  unfold addItem renumber
  rw [List.map_append]
  rfl

theorem renumber_addRow (l : Lane) (row : Row) :
    (l.addRow row).renumber r = (l.renumber r).addRow (row.renumber r) := by
  unfold addRow renumber
  rw [List.map_append]
  rfl

theorem renumber_updateRow (l : Lane) (name : String) {f g : Row → Row}
    (hf : ∀ row, (f row).renumber r = g (row.renumber r)) :
    (l.updateRow name f).renumber r = (l.renumber r).updateRow name g := by
  have hrows : (l.rows.map fun row => if row.name = name then f row else row).map
        (·.renumber r) =
      (l.rows.map (·.renumber r)).map fun row => if row.name = name then g row else row := by
    rw [List.map_map, List.map_map]
    refine List.map_congr_left fun row _ => ?_
    by_cases hname : row.name = name
    · have hname' : (row.renumber r).name = name := hname
      simp only [Function.comp_apply, if_pos hname, if_pos hname', hf]
    · have hname' : ¬ (row.renumber r).name = name := hname
      simp only [Function.comp_apply, if_neg hname, if_neg hname']
  unfold updateRow renumber
  dsimp only
  rw [hrows]

theorem renumber_removeRow (l : Lane) (name : String) :
    (l.removeRow name).renumber r = (l.renumber r).removeRow name := by
  unfold removeRow renumber
  dsimp only
  rw [List.filter_map]
  rfl

theorem renumber_removeItem (l : Lane) (id : WorkItemId) :
    (l.removeItem id).renumber r = (l.renumber r).removeItem (r id) := by
  have hfilter : ((l.items.map (·.renumber r)).filter fun item => item.id ≠ r id) =
      (l.items.filter fun item => item.id ≠ id).map (·.renumber r) := by
    rw [List.filter_map]
    refine congrArg _ (List.filter_congr fun item _ => ?_)
    exact decide_eq_decide.2 (not_congr r.injective.eq_iff)
  unfold removeItem renumber
  dsimp only
  rw [hfilter]

theorem renumber_receive (l : Lane) (messages : List BlockingMessage) :
    (l.receive messages).renumber r = (l.renumber r).receive (messages.map (·.renumber r)) := by
  unfold receive renumber
  dsimp only
  rw [List.map_append, List.filter_map]
  rfl

end Lane

theorem Store.renumber_refl (s : Store) : s.renumber (Equiv.refl _) = s := by
  have hlanes : s.lanes.map (·.renumber (Equiv.refl _)) = s.lanes :=
    (List.map_congr_left fun lane _ => lane.renumber_refl).trans (List.map_id _)
  unfold renumber
  rw [hlanes]

namespace Effect

theorem onLane_renumber (effect : Effect) (l : Lane) :
    (effect.renumber r).onLane (l.renumber r) = (effect.onLane l).renumber r := by
  cases effect with
  | putLock queue lock =>
    have hput : (l.updateRow queue.name fun row => { row with lock := some lock }).renumber r =
        (l.renumber r).updateRow queue.name fun row => { row with lock := some lock } :=
      l.renumber_updateRow queue.name fun _ => rfl
    exact hput.symm
  | addPlaceholder item => exact (l.renumber_addItem item).symm
  | post m => rfl
  | rehead queue head lockedUntil =>
    have hrehead : (l.updateRow queue.name (·.rehead head lockedUntil)).renumber r =
        (l.renumber r).updateRow queue.name (·.rehead (r head) lockedUntil) :=
      l.renumber_updateRow queue.name fun _ => rfl
    exact hrehead.symm
  | removeRow queue => exact (l.renumber_removeRow queue.name).symm
  | removeItem shard id => exact (l.renumber_removeItem id).symm
  | archive shard done =>
    unfold Effect.renumber onLane Lane.renumber
    dsimp only
    rw [List.map_append]
    rfl

theorem messages_renumber (effect : Effect) :
    (effect.renumber r).messages = effect.messages.map (·.renumber r) := by
  cases effect <;> rfl

theorem used_renumber (effect : Effect) : (effect.renumber r).used = effect.used := by
  cases effect <;> rfl

/-- What effects make of a lane goes along with an exchange of numbers. -/
theorem foldl_onLane_renumber (effects : List Effect) (l : Lane) :
    (effects.map (·.renumber r)).foldl (fun l effect => effect.onLane l) (l.renumber r) =
      (effects.foldl (fun l effect => effect.onLane l) l).renumber r := by
  induction effects generalizing l with
  | nil => rfl
  | cons effect rest ih =>
    rw [List.map_cons, List.foldl_cons, List.foldl_cons, onLane_renumber, ih]

theorem flatMap_messages_renumber (effects : List Effect) :
    (effects.map (·.renumber r)).flatMap messages =
      (effects.flatMap messages).map (·.renumber r) := by
  rw [List.flatMap_map, List.map_flatMap]
  exact congrArg (fun f => List.flatMap f effects) (funext messages_renumber)

theorem foldl_used_renumber (effects : List Effect) (n : Int) :
    (effects.map (·.renumber r)).foldl (fun n effect => n + effect.used) n =
      effects.foldl (fun n effect => n + effect.used) n := by
  rw [List.foldl_map]
  exact congrArg (fun f => List.foldl f n effects)
    (funext fun n => funext fun effect => congrArg (n + ·) effect.used_renumber)

end Effect

end Renumber

end Courier
