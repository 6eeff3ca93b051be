/-
  Courier/Proofs/Store/Duplicates.lean
  ====================================
  **Duplicate protection keeps one item of a kind waiting.**

  An item that is filed with duplicate protection gives way to one of the same queue
  and URL that waits for its first attempt.  If all items of a queue and a URL are
  filed so, at most one of them waits at any moment (`Store.Moment.once`): a filing
  adds one only where there is none, and whatever else happens to items, an attempt
  is never taken back and nothing is filed.  Placeholders have no URL, so they are
  duplicates of nothing that can be filed.

  A transaction files its items one after another, and the store can be looked at
  between any two of them: a `Moment` of a run may lie in the middle of a commit.
-/
import Courier.Proofs.Store.Archive
import Courier.Proofs.Store.Filings
import Courier.Proofs.Store.Rows
import Mathlib.Data.List.Induction

namespace Courier

open Courier.Time

/-- Whether a prepared item asks for duplicate protection, if it is one of a queue and a URL. -/
def PreparedItem.Protects (p : PreparedItem) (queue : QueueRef) (url : String) : Prop :=
  p.queue = queue → p.url = url → p.duplicateProtection = true

namespace Store

variable {sharding : Sharding} {s s' : Store} {now : Instant} {queue : QueueRef} {url : String}
variable {p : PreparedItem} {lane : Lane} {a b item : WorkItem}

/-! ### Items that wait for their first attempt -/

/-- Whether an item of a queue and a URL is pending and was never attempted. -/
structure Awaits (s : Store) (queue : QueueRef) (url : String) (item : WorkItem) : Prop where
  pending : s.IsPending item
  queue : item.queueRef = queue
  url : item.url = url
  untried : item.lastAttemptedAt = none

/-- Whether at most one item of a queue and a URL waits for its first attempt. -/
def Once (s : Store) (queue : QueueRef) (url : String) : Prop :=
  ∀ a b, s.Awaits queue url a → s.Awaits queue url b → a = b

theorem Awaits.exists_lane (h : s.Awaits queue url item) (hs : s.Sound) :
    ∃ lane, s.lane? queue.shard = some lane ∧ item ∈ lane.items := by
  obtain ⟨lane, hl, hi⟩ := h.pending
  have hshard : lane.shard = queue.shard :=
    ((hs.lanes lane hl).here item hi).symm.trans (congrArg QueueRef.shard h.queue)
  exact ⟨lane, hshard ▸ hs.lane?_of_mem hl, hi⟩

theorem Awaits.mem_items (h : s.Awaits queue url item) (hs : s.Sound)
    (hl : s.lane? queue.shard = some lane) : item ∈ lane.items := by
  obtain ⟨other, ho, hi⟩ := h.exists_lane hs
  rw [hl] at ho
  cases ho
  exact hi

/-- Items of a queue that are pending under one number are the same. -/
theorem Awaits.eq_of_id (h : s.Awaits queue url a) (h' : s.Awaits queue url b) (hs : s.Sound)
    (hid : a.id = b.id) : a = b := by
  obtain ⟨lane, hl, hi⟩ := h.exists_lane hs
  exact (hs.lane hl).item_eq hi (h'.mem_items hs hl) hid

/-- What has no URL is the placeholder of its queue. -/
theorem once_of_no_url (hs : s.Sound) : s.Once queue "" := by
  intro a b ha hb
  have hplace : ∀ {item : WorkItem}, item.url = "" → item.isPlaceholder = true :=
    fun h => decide_eq_true h
  obtain ⟨lane, hl, hi⟩ := ha.exists_lane hs
  refine (hs.lane hl).rowsFit.one_placeholder a hi b (hb.mem_items hs hl) (hplace ha.url)
    (hplace hb.url) ?_
  exact congrArg QueueRef.name (ha.queue.trans hb.queue.symm)

/-! ### Filing one item -/

theorem awaits_of_duplicates (hs : s.Sound) (hl : s.lane? p.queue.shard = some lane)
    (hi : item ∈ lane.items) (h : p.Duplicates item) : s.Awaits p.queue p.url item := by
  obtain ⟨hmem, hshard⟩ := mem_of_lane? hl
  refine ⟨⟨lane, hmem, hi⟩, ?_, h.2.1, h.2.2⟩
  unfold WorkItem.queueRef
  rw [h.1, (hs.lanes lane hmem).here item hi, hshard]

theorem Awaits.duplicates (h : s.Awaits p.queue p.url item) : p.Duplicates item :=
  ⟨congrArg QueueRef.name h.queue, h.url, h.untried⟩

/-- A protected item gives way to one that waits, and is filed if there is none. -/
theorem insert_protected (hs : s.Sound) (hp : p.IsFor s.sharding)
    (hprotected : p.duplicateProtection = true) (now : Instant) :
    (∃ existing, s.Awaits p.queue p.url existing ∧
      s.insert now p = (.ok (.duplicate existing.id p.queue), s)) ∨
    ((¬ ∃ item, s.Awaits p.queue p.url item) ∧
      (s.insert now p).1 = .ok (.created s.nextId p.queue)) := by
  obtain ⟨lane, hl, ⟨existing, hdup, hrun⟩ | ⟨hnone, hrun⟩⟩ := insert_cases hs hp now
  · unfold Lane.duplicate? at hdup
    rw [if_pos hprotected] at hdup
    refine Or.inl ⟨existing, ?_, hrun⟩
    have hduplicates := List.find?_some hdup
    exact awaits_of_duplicates hs hl (List.mem_of_find?_eq_some hdup)
      (of_decide_eq_true hduplicates)
  · unfold Lane.duplicate? at hnone
    rw [if_pos hprotected] at hnone
    refine Or.inr ⟨?_, congrArg Prod.fst hrun⟩
    rintro ⟨item, hitem⟩
    have hnot := List.find?_eq_none.1 hnone item (hitem.mem_items hs hl)
    exact hnot (decide_eq_true hitem.duplicates)

/-- An item without protection is filed. -/
theorem insert_unprotected (hs : s.Sound) (hp : p.IsFor s.sharding)
    (hunprotected : p.duplicateProtection = false) (now : Instant) :
    (s.insert now p).1 = .ok (.created s.nextId p.queue) := by
  obtain ⟨lane, hl, ⟨existing, hdup, hrun⟩ | ⟨hnone, hrun⟩⟩ := insert_cases hs hp now
  · unfold Lane.duplicate? at hdup
    rw [hunprotected, if_neg Bool.false_ne_true] at hdup
    cases hdup
  · exact congrArg Prod.fst hrun

/-- What is pending after a filing was pending before, or it is the item that is filed. -/
theorem insert_pending (hs : s.Sound) (hp : p.IsFor s.sharding)
    (hb : (s.insert now p).2.IsPending b) :
    s.IsPending b ∨
      (b = p.toWorkItem s.nextId now ∧ (s.insert now p).1 = .ok (.created s.nextId p.queue)) := by
  obtain ⟨lane, hl, ⟨existing, -, hrun⟩ | ⟨-, hrun⟩⟩ := insert_cases hs hp now
  · rw [hrun] at hb
    exact Or.inl hb
  · rw [hrun] at hb
    obtain ⟨new, hnew, hi⟩ := hb
    obtain ⟨old, hold, rfl⟩ := mem_replace.1 hnew
    by_cases hshard : old.shard = (lane.addItem (p.toWorkItem s.nextId now)).shard
    · rw [if_pos hshard] at hi
      rcases List.mem_append.1 hi with hi | hi
      · exact Or.inl ⟨lane, (mem_of_lane? hl).1, hi⟩
      · exact Or.inr ⟨List.mem_singleton.1 hi, congrArg Prod.fst hrun⟩
    · rw [if_neg hshard] at hi
      exact Or.inl ⟨old, hold, hi⟩

theorem insert_once (hs : s.Sound) (hp : p.IsFor s.sharding) (hprotects : p.Protects queue url)
    (h : s.Once queue url) : (s.insert now p).2.Once queue url := by
  -- a new item of the kind is one that was filed, so none of the kind waited
  have hnew : ∀ {x y : WorkItem}, (s.insert now p).2.Awaits queue url x →
      x = p.toWorkItem s.nextId now → (s.insert now p).1 = .ok (.created s.nextId p.queue) →
      s.IsPending y → ¬ (s.insert now p).2.Awaits queue url y := by
    rintro x y hx rfl hcreated hpending hy
    have hqueue : p.queue = queue := hx.queue
    have hurl : p.url = url := hx.url
    subst hqueue hurl
    have hwaits : s.Awaits p.queue p.url y := ⟨hpending, hy.queue, hy.url, hy.untried⟩
    rcases insert_protected hs hp (hprotects rfl rfl) now with ⟨existing, -, hrun⟩ | ⟨hnone, -⟩
    · rw [hrun] at hcreated
      cases hcreated
    · exact hnone ⟨y, hwaits⟩
  intro a b ha hb
  rcases insert_pending hs hp ha.pending with hpa | ⟨hfa, hcreated⟩
  · rcases insert_pending hs hp hb.pending with hpb | ⟨hfb, hcreated⟩
    · exact h a b ⟨hpa, ha.queue, ha.url, ha.untried⟩ ⟨hpb, hb.queue, hb.url, hb.untried⟩
    · exact absurd ha (hnew hb hfb hcreated hpa)
  · rcases insert_pending hs hp hb.pending with hpb | ⟨hfb, -⟩
    · exact absurd hb (hnew ha hfa hcreated hpb)
    · exact hfa.trans hfb.symm

theorem insertAll_once {ps : List PreparedItem} (hs : s.Sound) (hps : ∀ p ∈ ps, p.IsFor s.sharding)
    (hprotects : ∀ p ∈ ps, p.Protects queue url) (h : s.Once queue url) :
    (s.insertAll now ps).2.Once queue url := by
  induction ps generalizing s with
  | nil => exact h
  | cons p rest ih =>
    have hp := hps p List.mem_cons_self
    obtain ⟨result, mid, hrun, hmoves⟩ := insert_moves hs hp now
    have hmid : mid.Once queue url := by
      have honce : (s.insert now p).2.Once queue url :=
        insert_once hs hp (hprotects p List.mem_cons_self) h
      rwa [hrun] at honce
    unfold insertAll
    rw [hrun]
    refine ih (hmoves.sound hs) ?_ ?_ hmid
    · exact fun q hq => hmoves.sharding ▸ hps q (List.mem_cons_of_mem _ hq)
    · exact fun q hq => hprotects q (List.mem_cons_of_mem _ hq)

/-! ### Over a run -/

/-- What waits after a call that files nothing waited before. -/
theorem Call.awaits_before {calls : List (Call sharding)} (c : Call sharding)
    (hnone : c.filings (reached calls) = []) (hurl : url ≠ "")
    (h : (c.run (reached calls)).2.Awaits queue url b) :
    ∃ a, (reached calls).Awaits queue url a ∧ a.id = b.id := by
  obtain ⟨hs, hsharding⟩ := reached_sound calls
  rcases c.held hs hsharding h.pending.mem_held with ⟨a, ha, hsame⟩ | ⟨-, hplace | hfiled⟩
  · have hlt : a.id < (reached calls).nextId := by
      have hid : a.id ∈ (reached calls).ids := by
        rw [ids_eq_held]
        exact List.mem_map_of_mem ha
      exact (Int.mem_range_iff.1 ((ids_reached calls).mem_iff.1 (List.mem_append_left _ hid))).2
    rcases c.isPending hs hsharding h.pending with hfresh | ⟨old, hold, his⟩
    · rw [hsame.id] at hfresh
      exact absurd hlt (Int.not_lt.2 hfresh)
    · have heq : old = a :=
        held_eq (nodup_ids_reached calls) hold.mem_held ha (his.id.symm.trans hsame.id)
      refine ⟨a, ⟨heq ▸ hold, hsame.queueRef.symm.trans h.queue, hsame.url.symm.trans h.url, ?_⟩,
        hsame.id.symm⟩
      cases htried : a.lastAttemptedAt with
      | none => rfl
      | some at_ =>
        have hsome := hsame.tried (htried ▸ rfl)
        rw [h.untried] at hsome
        cases hsome
  · have hnourl : b.url = "" := of_decide_eq_true hplace
    exact absurd (h.url.symm.trans hnourl) hurl
  · rw [hnone] at hfiled
    cases hfiled

theorem Call.once {calls : List (Call sharding)} (c : Call sharding)
    (hprotects : ∀ p ∈ c.staged, p.Protects queue url) (h : (reached calls).Once queue url) :
    (c.run (reached calls)).2.Once queue url := by
  obtain ⟨hs, hsharding⟩ := reached_sound calls
  obtain ⟨hs', -⟩ := c.run_sound hs hsharding
  by_cases hurl : url = ""
  · subst hurl
    exact once_of_no_url hs'
  rcases c.filings_cases (reached calls) hsharding with ⟨jobs, hps, -, -, hstate⟩ | ⟨hnone, -⟩
  · rw [hstate]
    intro a b ha hb
    exact insertAll_once hs hps hprotects h a b ⟨ha.pending, ha.queue, ha.url, ha.untried⟩
      ⟨hb.pending, hb.queue, hb.url, hb.untried⟩
  · intro a b ha hb
    obtain ⟨a', ha', haid⟩ := c.awaits_before hnone hurl ha
    obtain ⟨b', hb', hbid⟩ := c.awaits_before hnone hurl hb
    have hid : a'.id = b'.id := congrArg WorkItem.id (h a' b' ha' hb')
    exact ha.eq_of_id hb hs' (haid.symm.trans (hid.trans hbid))

theorem once_reached {calls : List (Call sharding)}
    (hprotects : ∀ c ∈ calls, ∀ p ∈ c.staged, p.Protects queue url) :
    (reached calls).Once queue url := by
  induction calls using List.reverseRecOn with
  | nil =>
    intro a b ha
    obtain ⟨lane, hl, hi⟩ := ha.pending
    obtain ⟨shard, -, rfl⟩ := List.mem_map.1 hl
    cases hi
  | append_singleton calls c ih =>
    have hlast : reached (calls ++ [c]) = (c.run (reached calls)).2 := reached_append calls [c]
    rw [hlast]
    refine c.once ?_ (ih fun d hd => hprotects d (List.mem_append_left _ hd))
    exact hprotects c (List.mem_append_right _ (List.mem_singleton.2 rfl))

/-- A moment of a run: a history of calls, and then some of the items that a transaction files one
    after another. -/
structure Moment (sharding : Sharding) where
  calls : List (Call sharding)
  now : Instant
  staged : List PreparedItem
  isFor : ∀ p ∈ staged, p.IsFor sharding

namespace Moment

/-- The store at a moment. -/
def store (m : Moment sharding) : Store := ((reached m.calls).insertAll m.now m.staged).2

/-- Whether all items of a queue and a URL were filed with duplicate protection up to a moment. -/
structure Protects (m : Moment sharding) (queue : QueueRef) (url : String) : Prop where
  calls : ∀ c ∈ m.calls, ∀ p ∈ c.staged, p.Protects queue url
  staged : ∀ p ∈ m.staged, p.Protects queue url

theorem isFor_reached (m : Moment sharding) :
    ∀ p ∈ m.staged, p.IsFor (reached m.calls).sharding := by
  rw [(reached_sound m.calls).2]
  exact m.isFor

theorem sound (m : Moment sharding) : m.store.Sound ∧ m.store.sharding = sharding := by
  obtain ⟨hs, hsharding⟩ := reached_sound m.calls
  obtain ⟨s', hrun, hmoves⟩ := insertAll_moves hs m.isFor_reached m.now
  have hstore : m.store = s' := congrArg Prod.snd hrun
  rw [hstore]
  exact ⟨hmoves.sound hs, hmoves.sharding.trans hsharding⟩

/-- Of the items of a queue and a URL that are filed with duplicate protection, at most one waits
    for its first attempt. -/
theorem once (m : Moment sharding) (h : m.Protects queue url) : m.store.Once queue url := by
  exact insertAll_once (reached_sound m.calls).1 m.isFor_reached h.staged (once_reached h.calls)

end Moment

theorem NewItem.fields_of_prepare {freshName : String} {item : NewItem}
    (h : item.prepare sharding freshName = .ok p) :
    p.queue = .ofName sharding (item.queueName freshName) ∧
      p.duplicateProtection = item.duplicateProtection := by
  unfold NewItem.prepare at h
  split at h
  · cases h
  · split at h
    · cases h
      exact ⟨rfl, rfl⟩
    · dsimp only at h
      split at h
      · cases h
      · cases h
        exact ⟨rfl, rfl⟩

/-- Where all items of a queue and a URL are filed with duplicate protection, at most one of them
    waits for its first attempt at any moment of any run.  Another one is created exactly if there is
    none; otherwise the answer names the one that waits, and nothing changes.  Placeholders are
    duplicates of nothing, and what is filed without protection is always created. -/
theorem one_duplicate_waits (m : Moment sharding) :
    (∀ queue url, m.Protects queue url →
      (∀ a b, m.store.Awaits queue url a → m.store.Awaits queue url b → a = b) ∧
      ∀ (freshName : String) (item : NewItem) (p : PreparedItem),
        item.prepare sharding freshName = .ok p → p.queue = queue → p.url = url →
        p.duplicateProtection = true → ∀ now,
          m.store.enqueue now freshName item = m.store.insert now p ∧
          ((∃ id, (m.store.insert now p).1 = .ok (.created id queue)) ↔
            ¬ ∃ waiting, m.store.Awaits queue url waiting) ∧
          ∀ waiting, m.store.Awaits queue url waiting →
            m.store.insert now p = (.ok (.duplicate waiting.id queue), m.store)) ∧
    (∀ placeholder, m.store.IsPending placeholder → placeholder.isPlaceholder = true →
      ∀ p : PreparedItem, p.IsFor sharding → ¬ p.Duplicates placeholder) ∧
    ∀ now freshName (item : NewItem), item.url ≠ "" →
      item.blocks ≠ some (item.queueName freshName) → item.duplicateProtection = false →
      (m.store.enqueue now freshName item).1 =
        .ok (.created m.store.nextId (.ofName sharding (item.queueName freshName))) := by
  obtain ⟨hs, hsharding⟩ := m.sound
  have henqueue : ∀ {freshName : String} {item : NewItem} {p : PreparedItem},
      item.prepare sharding freshName = .ok p → ∀ now,
        m.store.enqueue now freshName item = m.store.insert now p := by
    intro freshName item p hprepare now
    unfold enqueue
    rw [hsharding, hprepare]
  refine ⟨fun queue url hprotects => ⟨m.once hprotects, ?_⟩, ?_, ?_⟩
  · rintro freshName item p hprepare rfl rfl hprotected now
    have hp : p.IsFor m.store.sharding := by
      rw [hsharding]
      exact ⟨freshName, item, hprepare⟩
    refine ⟨henqueue hprepare now, ?_⟩
    rcases insert_protected hs hp hprotected now with ⟨existing, hwaits, hrun⟩ | ⟨hnone, hcreated⟩
    · refine ⟨⟨?_, fun hno => absurd ⟨existing, hwaits⟩ hno⟩, fun waiting hwaiting => ?_⟩
      · rintro ⟨id, hid⟩
        rw [hrun] at hid
        cases hid
      · rw [m.once hprotects waiting existing hwaiting hwaits]
        exact hrun
    · exact ⟨⟨fun _ => hnone, fun _ => ⟨_, hcreated⟩⟩,
        fun waiting hwaiting => absurd ⟨waiting, hwaiting⟩ hnone⟩
  · rintro placeholder - hplace p ⟨freshName, item, hprepare⟩ hduplicates
    have hurl : placeholder.url = "" := of_decide_eq_true hplace
    exact (NewItem.prepare_spec hprepare).1 (hduplicates.2.1.symm.trans hurl)
  · intro now freshName item hurl hblocks hunprotected
    have hok := (NewItem.prepare_isOk_iff sharding freshName item).2 ⟨hurl, hblocks⟩
    cases hprepare : item.prepare sharding freshName with
    | error e =>
      rw [hprepare] at hok
      cases hok
    | ok p =>
      obtain ⟨hqueue, hprotection⟩ := NewItem.fields_of_prepare hprepare
      have hp : p.IsFor m.store.sharding := by
        rw [hsharding]
        exact ⟨freshName, item, hprepare⟩
      rw [henqueue hprepare, ← hqueue]
      exact insert_unprotected hs hp (hprotection.trans hunprotected) now

/-- A report that is to wait once at most. -/
def report : NewItem :=
  { url := "http://a/report", queue := some "reports", duplicateProtection := true }

def preparedReport : PreparedItem :=
  { url := "http://a/report"
    queue := ⟨"reports", ⟨0, 1⟩⟩
    debugInfo := none
    duplicateProtection := true
    internal := none
    blocking := .none
    lockWhenComplete := none }

theorem prepare_report : report.prepare .single "" = .ok preparedReport := by rfl

/-- The report was filed and attempted, and a transaction has just filed it again. -/
def reportedAgain : Moment .single where
  calls :=
    [⟨{ origin := ⟨10⟩ }, .operate (.enqueue "" report)⟩,
     ⟨{ origin := ⟨11⟩ }, .operate (.next ⟨0, 1⟩)⟩]
  now := ⟨12⟩
  staged := [preparedReport]
  isFor p hp := ⟨"", report, by rw [List.mem_singleton.1 hp]; exact prepare_report⟩

/-- The second report is the one that waits, and a third one gives way to it. -/
theorem third_report_gives_way :
    reportedAgain.Protects ⟨"reports", ⟨0, 1⟩⟩ "http://a/report" ∧
      (∃ waiting, reportedAgain.store.Awaits ⟨"reports", ⟨0, 1⟩⟩ "http://a/report" waiting ∧
        waiting.id = 2) ∧
      reportedAgain.store.enqueue ⟨13⟩ "" report =
        (.ok (.duplicate 2 ⟨"reports", ⟨0, 1⟩⟩), reportedAgain.store) := by
  have hprotects : reportedAgain.Protects ⟨"reports", ⟨0, 1⟩⟩ "http://a/report" := by
    constructor
    · intro c hc p hp _ _
      rcases List.mem_cons.1 hc with rfl | hc
      · rw [List.mem_singleton.1 hp]
        rfl
      · rw [List.mem_singleton.1 hc] at hp
        cases hp
    · intro p hp _ _
      rw [List.mem_singleton.1 hp]
      rfl
  have hwaits : reportedAgain.store.Awaits ⟨"reports", ⟨0, 1⟩⟩ "http://a/report"
      (preparedReport.toWorkItem 2 ⟨12⟩) := by
    refine ⟨?_, rfl, rfl, rfl⟩
    unfold IsPending
    decide +kernel
  obtain ⟨hrun, -, hduplicate⟩ := ((one_duplicate_waits reportedAgain).1 _ _ hprotects).2
    "" report preparedReport prepare_report rfl rfl rfl ⟨13⟩
  exact ⟨hprotects, ⟨_, hwaits, rfl⟩, hrun.trans (hduplicate _ hwaits)⟩

end Store

end Courier
