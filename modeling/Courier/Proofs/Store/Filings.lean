/-
  Courier/Proofs/Store/Filings.lean
  =================================
  **Every item is kept as it was filed, until it is removed.**

  `Call.filings` are the items that a call files, as their senders describe them and
  under the numbers that the call answers with.  What a store holds after a call was
  held before, or was filed by it, or is a placeholder with a new number
  (`Store.Call.held`); so what bears the number of an item that was filed is that item
  (`Store.held_of_filing`), and no number is ever given out again, not even after
  everything was removed.  With the conservation of numbers this is the life of every
  item: `Store.nothing_lost_nor_altered`.
-/
import Courier.Proofs.Store.Continuity

namespace Courier

open Courier.Time

/-! ### An item as it is filed -/

/-- An item as it is filed for what its sender describes. -/
def NewItem.filedAs (item : NewItem) (sharding : Sharding) (freshName : String) (id : WorkItemId)
    (now : Instant) : WorkItem where
  id
  shard := sharding.shardFor (item.queueName freshName)
  url := item.url
  queueName := item.queueName freshName
  debugInfo := item.debugInfo
  createdAt := now
  lastAttemptedAt := none
  isIngested := false
  internal := item.internal
  blocking :=
    match item.blocks with
    | none => .none
    | some target => .queue (.ofName sharding target)
  lockWhenComplete := item.lockWhenComplete

theorem NewItem.toWorkItem_of_prepare {sharding : Sharding} {freshName : String} {item : NewItem}
    {p : PreparedItem} (h : item.prepare sharding freshName = .ok p) (id : WorkItemId)
    (now : Instant) : p.toWorkItem id now = item.filedAs sharding freshName id now := by
  unfold filedAs
  unfold prepare at h
  split at h
  · cases h
  · cases hblocks : item.blocks with
    | none =>
      rw [hblocks] at h
      cases h
      rfl
    | some target =>
      rw [hblocks] at h
      dsimp only at h
      split at h
      · cases h
      · cases h
        rfl

/-- What was filed for a prepared item that had this result. -/
def EnqueueResult.filing (p : PreparedItem) (now : Instant) : EnqueueResult → List WorkItem
  | .created id _ => [p.toWorkItem id now]
  | .duplicate _ _ => []

namespace Store

variable {sharding : Sharding} {s : Store} {now : Instant} {b : WorkItem}

/-- The items that are filed for prepared ones, in order, up to the first that fails. -/
def filings (now : Instant) : List PreparedItem → Store → List WorkItem
  | [], _ => []
  | p :: ps, s =>
    match s.insert now p with
    | (.ok result, s) => result.filing p now ++ filings now ps s
    | (.error _, _) => []

/-- The items that a call files, as they are filed. -/
def Call.filings (c : Call sharding) (s : Store) : List WorkItem :=
  match c.request with
  | .operate (.enqueue freshName item) =>
    match (c.run s).1 with
    | .ok (.enqueued (.created id _)) =>
      [item.filedAs s.sharding freshName id c.clock.storeNow]
    | _ => []
  | .operate _ => []
  | .commit tx _ => s.filings c.clock.storeNow tx.items

/-- Filing a prepared item adds it, under the next number, or nothing. -/
theorem insert_filing (hs : s.Sound) {p : PreparedItem} (hp : p.IsFor s.sharding) (now : Instant) :
    ∃ result s', s.insert now p = (.ok result, s') ∧ s'.Sound ∧ s'.sharding = s.sharding ∧
      (∀ b, b ∈ s'.held ↔ b ∈ s.held ∨ b ∈ result.filing p now) ∧
      s.nextId ≤ s'.nextId ∧ Ascends s.nextId s'.nextId ((result.filing p now).map (·.id)) ∧
      ∀ queue, numbersIn queue (result.filing p now) = filedIn queue result := by
  obtain ⟨lane, hlane, ⟨existing, -, hrun⟩ | ⟨hsingle, hrun⟩⟩ := insert_cases hs hp now
  · refine ⟨_, _, hrun, hs, rfl, fun b => ?_, Int.le_refl _, .nil _ _, fun queue => rfl⟩
    exact (or_iff_left List.not_mem_nil).symm
  · obtain ⟨hmem, hshard⟩ := mem_of_lane? hlane
    have hstep : lane.Step s.sharding now s.nextId (.filed s.nextId p.queue) _ 1 _ :=
      .file hp hshard.symm hsingle
    have hmove := Move.lane hmem hstep
    refine ⟨_, _, hrun, hmove.sound hs, rfl, fun b => ?_, Int.le_add_one (Int.le_refl _), ?_, ?_⟩
    · have hsame : (lane.addItem (p.toWorkItem s.nextId now)).shard = lane.shard := rfl
      rw [mem_held_replace hs hmem hsame, Lane.held_addItem, mem_held]
      show _ ↔ _ ∨ b ∈ [p.toWorkItem s.nextId now]
      rw [List.mem_singleton]
      constructor
      · rintro ((hb | hb) | ⟨other, ho, -, hb⟩)
        · exact Or.inl ⟨lane, hmem, hb⟩
        · exact Or.inr hb
        · exact Or.inl ⟨other, ho, hb⟩
      · rintro (⟨other, ho, hb⟩ | hb)
        · by_cases hsame : other = lane
          · exact Or.inl (Or.inl (hsame ▸ hb))
          · exact Or.inr ⟨other, ho, hsame, hb⟩
        · exact Or.inl (Or.inr hb)
    · refine ⟨List.pairwise_singleton _ _, fun id hid => ?_⟩
      rw [List.mem_singleton.1 hid]
      exact ⟨Int.le_refl _, Int.lt_succ _⟩
    · intro queue
      obtain ⟨freshName, item, hprepare⟩ := hp
      have hreal : (p.toWorkItem s.nextId now).isPlaceholder = false :=
        decide_eq_false (NewItem.prepare_spec hprepare).1
      have hqueue : (p.toWorkItem s.nextId now).queueRef = p.queue := rfl
      show numbersIn queue [p.toWorkItem s.nextId now] = _
      rw [numbersIn_singleton, hqueue, hreal]
      simp only [and_true]
      rfl

/-- What is filed for prepared items is held afterwards, with what was held before; its numbers
    are new and ascend. -/
theorem insertAll_filings (hs : s.Sound) {ps : List PreparedItem}
    (hps : ∀ p ∈ ps, p.IsFor s.sharding) (now : Instant) :
    (∀ b, b ∈ (s.insertAll now ps).2.held ↔ b ∈ s.held ∨ b ∈ s.filings now ps) ∧
      s.nextId ≤ (s.insertAll now ps).2.nextId ∧
      Ascends s.nextId (s.insertAll now ps).2.nextId ((s.filings now ps).map (·.id)) ∧
      ∀ queue, numbersIn queue (s.filings now ps) =
        (s.insertResults now ps).flatMap (filedIn queue) := by
  induction ps generalizing s with
  | nil =>
    refine ⟨fun b => ?_, Int.le_refl _, .nil _ _, fun queue => rfl⟩
    exact (or_iff_left List.not_mem_nil).symm
  | cons p rest ih =>
    obtain ⟨result, s', hrun, hs', hsharding, hheld, hle, hids, hnumbers⟩ :=
      insert_filing hs (hps p List.mem_cons_self) now
    have hrest : ∀ q ∈ rest, q.IsFor s'.sharding := fun q hq =>
      hsharding ▸ hps q (List.mem_cons_of_mem _ hq)
    obtain ⟨hheld', hle', hids', hnumbers'⟩ := ih hs' hrest
    have hall : (s.insertAll now (p :: rest)).2 = (s'.insertAll now rest).2 := by
      show (match s.insert now p with
        | (.ok _, s) => insertAll now rest s
        | (.error e, s) => (.error e, s)).2 = _
      rw [hrun]
    have hfilings : s.filings now (p :: rest) = result.filing p now ++ s'.filings now rest := by
      show (match s.insert now p with
        | (.ok result, s) => result.filing p now ++ filings now rest s
        | (.error _, _) => []) = _
      rw [hrun]
    have hresults : s.insertResults now (p :: rest) = result :: s'.insertResults now rest := by
      show (match s.insert now p with
        | (.ok result, s) => result :: insertResults now rest s
        | (.error _, _) => []) = _
      rw [hrun]
    rw [hall, hfilings, hresults]
    refine ⟨fun b => ?_, Int.le_trans hle hle', ?_, fun queue => ?_⟩
    · rw [hheld', hheld, List.mem_append, or_assoc]
    · rw [List.map_append]
      exact hids.append hids' hle hle'
    · rw [numbersIn_append, hnumbers, hnumbers', List.flatMap_cons]

/-- The prepared items that a call is to file, in order. -/
def Call.staged (c : Call sharding) : List PreparedItem :=
  match c.request with
  | .operate (.enqueue freshName item) =>
    match item.prepare sharding freshName with
    | .ok p => [p]
    | .error _ => []
  | .operate _ => []
  | .commit tx _ => tx.items

/-- A call files the items that it has staged and records jobs, or it files nothing. -/
theorem Call.filings_cases (c : Call sharding) (s : Store) (hsharding : s.sharding = sharding) :
    (∃ jobs, (∀ p ∈ c.staged, p.IsFor s.sharding) ∧
      c.filings s = s.filings c.clock.storeNow c.staged ∧
      (∀ queue, c.filed queue s =
        (s.insertResults c.clock.storeNow c.staged).flatMap (filedIn queue)) ∧
      (c.run s).2 = { (s.insertAll c.clock.storeNow c.staged).2 with jobs }) ∨
    (c.filings s = [] ∧ ∀ queue, c.filed queue s = []) := by
  subst hsharding
  cases hc : c.request with
  | commit tx isOpen =>
    have hstaged : c.staged = tx.items := by
      unfold Call.staged
      rw [hc]
    rw [hstaged]
    refine Or.inl ⟨(c.run s).2.jobs, isOpen.isFor, ?_, ?_, ?_⟩
    · unfold Call.filings
      rw [hc]
    · intro queue
      unfold Call.filed
      rw [hc]
    · unfold Call.run
      rw [hc]
      dsimp only
      rw [Answer.map_snd]
      unfold commit
      obtain ⟨answer, s'⟩ := s.insertAll c.clock.storeNow tx.items
      cases answer <;> rfl
  | operate operation =>
    cases operation with
    | enqueue freshName item =>
      have hanswer : c.run s = (s.enqueue c.clock.storeNow freshName item).map .enqueued :=
        Call.run_operate hc s
      unfold enqueue at hanswer
      cases hprepare : item.prepare s.sharding freshName with
      | error e =>
        rw [hprepare] at hanswer
        refine Or.inr ⟨?_, fun queue => ?_⟩
        · unfold Call.filings
          rw [hc]
          dsimp only
          rw [hanswer]
          rfl
        · unfold Call.filed
          rw [hc]
          dsimp only
          rw [hanswer]
          rfl
      | ok p =>
        rw [hprepare] at hanswer
        dsimp only at hanswer
        have hstaged : c.staged = [p] := by
          unfold Call.staged
          rw [hc]
          dsimp only
          rw [hprepare]
        rw [hstaged]
        have hall : (s.insertAll c.clock.storeNow [p]).2 = (s.insert c.clock.storeNow p).2 := by
          unfold insertAll
          obtain ⟨answer, s'⟩ := s.insert c.clock.storeNow p
          cases answer <;> rfl
        refine Or.inl ⟨(c.run s).2.jobs, ?_, ?_, ?_, ?_⟩
        · intro q hq
          rw [List.mem_singleton.1 hq]
          exact ⟨freshName, item, hprepare⟩
        · unfold Call.filings
          rw [hc]
          dsimp only
          rw [hanswer]
          unfold Store.filings
          obtain ⟨answer, s'⟩ := s.insert c.clock.storeNow p
          cases answer with
          | error e => rfl
          | ok result =>
            cases result with
            | created id queue =>
              show [item.filedAs s.sharding freshName id c.clock.storeNow] =
                [p.toWorkItem id c.clock.storeNow]
              rw [NewItem.toWorkItem_of_prepare hprepare]
            | duplicate existing queue => rfl
        · intro queue
          unfold Call.filed
          rw [hc]
          dsimp only
          rw [hanswer]
          unfold insertResults
          obtain ⟨answer, s'⟩ := s.insert c.clock.storeNow p
          cases answer with
          | error e => rfl
          | ok result => exact (List.append_nil _).symm
        · rw [hall, hanswer, Answer.map_snd]
    | _ =>
      refine Or.inr ⟨?_, fun queue => ?_⟩
      · unfold Call.filings
        rw [hc]
      · unfold Call.filed
        rw [hc]

/-- The items that a call files are held after it; their numbers are new and ascend, and they are
    the numbers that it answers with. -/
theorem Call.filings_spec (c : Call sharding) (hs : s.Sound) (hsharding : s.sharding = sharding) :
    (∀ filed ∈ c.filings s, filed ∈ (c.run s).2.held) ∧
      Ascends s.nextId (c.run s).2.nextId ((c.filings s).map (·.id)) ∧
      ∀ queue, numbersIn queue (c.filings s) = c.filed queue s := by
  rcases c.filings_cases s hsharding with ⟨jobs, hps, hfilings, hfiled, hstate⟩ | ⟨hnone, hno⟩
  · obtain ⟨hheld, -, hids, hnumbers⟩ := insertAll_filings hs hps c.clock.storeNow
    rw [hfilings, hstate]
    refine ⟨fun filed hf => (hheld filed).2 (Or.inr hf), hids, fun queue => ?_⟩
    rw [hnumbers, hfiled]
  · rw [hnone]
    refine ⟨fun filed hf => absurd hf List.not_mem_nil, .nil _ _, fun queue => ?_⟩
    rw [hno]
    rfl

/-- Whether one of the calls takes a lock back from a queue. -/
def unlockedIn (calls : List (Call sharding)) (queue : QueueRef) (lock : String) : Prop :=
  ∃ c ∈ calls, c.request = .operate (.unlock queue lock)

theorem unlockedIn_mono {calls more : List (Call sharding)} (h : ∀ c ∈ calls, c ∈ more)
    (queue : QueueRef) (lock : String) (hlock : unlockedIn calls queue lock) :
    unlockedIn more queue lock :=
  hlock.imp fun c hc => ⟨h c hc.1, hc.2⟩

/-- What is held after a call was held before, or it bears a new number and is a placeholder or
    was filed by the call. -/
theorem Call.held (c : Call sharding) (hs : s.Sound) (hsharding : s.sharding = sharding)
    (hb : b ∈ (c.run s).2.held) :
    (∃ a ∈ s.held, b.Continues (unlockedIn [c]) a) ∨
      (s.nextId ≤ b.id ∧ (b.isPlaceholder = true ∨ b ∈ c.filings s)) := by
  rcases c.filings_cases s hsharding with ⟨jobs, hps, hfilings, -, hstate⟩ | ⟨-, hno⟩
  · obtain ⟨hheld, -, hids, -⟩ := insertAll_filings hs hps c.clock.storeNow
    rw [hstate] at hb
    rcases (hheld b).1 hb with hold | hnew
    · exact Or.inl ⟨b, hold, .refl _ b⟩
    · exact Or.inr ⟨(hids.2 b.id (List.mem_map_of_mem hnew)).1, Or.inr (hfilings ▸ hnew)⟩
  · obtain ⟨events, hmoves, haccounts⟩ := c.traced hs hsharding
    have hfiled : ∀ event ∈ events, ∀ id queue, event ≠ .filed id queue := by
      rintro event he id queue rfl
      have hnone := (haccounts.filed queue).trans (hno queue)
      have hid : (Event.filed id queue).filedIn queue = [] := List.flatMap_eq_nil_iff.1 hnone _ he
      rw [Event.filedIn, if_pos rfl] at hid
      cases hid
    rcases hmoves.held hs hfiled hb with ⟨a, ha, hsame⟩ | ⟨hplace, hnew⟩
    · refine Or.inl ⟨a, ha, hsame.mono ?_⟩
      rintro queue lock ⟨event, he, htakes⟩
      cases event with
      | released item =>
        obtain ⟨rfl, hlock⟩ := htakes
        obtain ⟨other, hother, hc⟩ := haccounts.explained _ he
        rw [hlock, Option.some.injEq] at hother
        exact ⟨c, List.mem_singleton.2 rfl, hother ▸ hc⟩
      | _ => exact htakes.elim
    · exact Or.inr ⟨hnew, Or.inl hplace⟩

/-! ### Over a history -/

/-- What is held after a history was held before, or it bears a new number and is a placeholder or
    continues what was filed meanwhile. -/
theorem held_after (hs : s.Sound) (hsharding : s.sharding = sharding)
    {calls : List (Call sharding)} (hb : b ∈ (s.after calls).held) :
    (∃ a ∈ s.held, b.Continues (unlockedIn calls) a) ∨
      (s.nextId ≤ b.id ∧ (b.isPlaceholder = true ∨
        ∃ filed ∈ told Call.filings s calls, b.Continues (unlockedIn calls) filed)) := by
  induction calls generalizing s with
  | nil => exact Or.inl ⟨b, hb, .refl _ b⟩
  | cons c rest ih =>
    obtain ⟨hs', hsharding'⟩ := c.run_sound hs hsharding
    have hlater : ∀ queue lock, unlockedIn rest queue lock → unlockedIn (c :: rest) queue lock :=
      unlockedIn_mono fun d hd => List.mem_cons_of_mem _ hd
    rcases ih hs' hsharding' hb with ⟨a, ha, hsame⟩ | ⟨hnew, horigin⟩
    · rcases c.held hs hsharding ha with ⟨first, hfirst, hbefore⟩ | ⟨hnew, horigin⟩
      · refine Or.inl ⟨first, hfirst, (hsame.mono hlater).trans (hbefore.mono ?_)⟩
        exact unlockedIn_mono fun d hd => List.mem_singleton.1 hd ▸ List.mem_cons_self
      · refine Or.inr ⟨hsame.id ▸ hnew, horigin.imp (fun hplace => ?_) fun hfiled => ?_⟩
        · unfold WorkItem.isPlaceholder at hplace ⊢
          rw [hsame.url]
          exact hplace
        · exact ⟨a, List.mem_append_left _ hfiled, hsame.mono hlater⟩
    · have hle := (ascends_after hs hsharding [c] default).1
      refine Or.inr ⟨Int.le_trans hle hnew, horigin.imp_right ?_⟩
      rintro ⟨filed, hfiled, hsame⟩
      exact ⟨filed, List.mem_append_right _ hfiled, hsame.mono hlater⟩

/-- What bears the number of an item that was filed is that item. -/
theorem held_of_filing (hs : s.Sound) (hsharding : s.sharding = sharding) (hfirst : 1 ≤ s.nextId)
    {gone : List WorkItemId} (hids : (s.ids ++ gone).Perm (Int.range 1 s.nextId))
    {calls : List (Call sharding)} (hb : b ∈ (s.after calls).held) {filed : WorkItem}
    (hfiled : filed ∈ told Call.filings s calls) (hid : filed.id = b.id) :
    b.Continues (unlockedIn calls) filed := by
  induction calls generalizing s gone with
  | nil => cases hfiled
  | cons c rest ih =>
    obtain ⟨hs', hsharding'⟩ := c.run_sound hs hsharding
    have hle := (ascends_after hs hsharding [c] default).1
    have hids' := ids_after hs hsharding hfirst hids [c]
    have hlater : ∀ queue lock, unlockedIn rest queue lock → unlockedIn (c :: rest) queue lock :=
      unlockedIn_mono fun d hd => List.mem_cons_of_mem _ hd
    rcases List.mem_append.1 hfiled with hnow | hthen
    · -- a number that is given out by now is borne by what was held right after the filing
      obtain ⟨hheld, hascends, -⟩ := c.filings_spec hs hsharding
      have hlt : b.id < (c.run s).2.nextId :=
        hid ▸ (hascends.2 _ (List.mem_map_of_mem hnow)).2
      rcases held_after hs' hsharding' hb with ⟨a, ha, hsame⟩ | ⟨hnew, -⟩
      · have hn : (c.run s).2.ids.Nodup :=
          (List.nodup_append.1 (hids'.nodup_iff.2 (nodup_range _ _))).1
        have heq : a = filed := held_eq hn ha (hheld filed hnow) (hsame.id.symm.trans hid.symm)
        exact heq ▸ hsame.mono hlater
      · exact absurd hlt (Int.not_lt.2 hnew)
    · exact (ih hs' hsharding' (Int.le_trans hfirst hle) hids' hb hthen).mono hlater

theorem told_map {α β : Type} (f : α → β) (tell : Call sharding → Store → List α) (s : Store)
    (calls : List (Call sharding)) :
    (told tell s calls).map f = told (fun c s => (tell c s).map f) s calls := by
  induction calls generalizing s with
  | nil => rfl
  | cons c rest ih =>
    show (tell c s ++ told tell (c.run s).2 rest).map f = _
    rw [List.map_append, ih]
    rfl

/-- The items that a history files bear numbers of their own, which ascend. -/
theorem filings_ascend (hs : s.Sound) (hsharding : s.sharding = sharding)
    (calls : List (Call sharding)) :
    Ascends s.nextId (s.after calls).nextId ((told Call.filings s calls).map (·.id)) := by
  rw [told_map]
  refine (ascends_told (fun c s hs hsharding => ?_) hs hsharding calls).2
  exact ⟨(ascends_after hs hsharding [c] default).1, (c.filings_spec hs hsharding).2.1⟩

/-- The items that a history files are those that its calls answer with. -/
theorem numbersIn_filings (hs : s.Sound) (hsharding : s.sharding = sharding)
    (calls : List (Call sharding)) (queue : QueueRef) :
    numbersIn queue (told Call.filings s calls) = told (Call.filed queue) s calls := by
  induction calls generalizing s with
  | nil => rfl
  | cons c rest ih =>
    obtain ⟨hs', hsharding'⟩ := c.run_sound hs hsharding
    show numbersIn queue (c.filings s ++ _) = c.filed queue s ++ _
    rw [numbersIn_append, ih hs' hsharding', (c.filings_spec hs hsharding).2.2 queue]

/-- Every number that was given out is that of one pending, archived or removed item; the items
    that were filed are among them, each once and under a number of its own.  What is held is a
    placeholder or was filed, and it is as it was filed; at a later moment it is as it was before,
    and no number that was given out by then is borne by anything else. -/
theorem nothing_lost_nor_altered (calls more : List (Call sharding)) :
    let s := reached calls
    let accounted := s.pendingIds ++ s.completedIds ++ told Call.removed (empty sharding) calls
    let filings := told Call.filings (empty sharding) calls
    accounted.Perm (Int.range 1 s.nextId) ∧
      (filings.map (·.id)).Pairwise (· < ·) ∧
      (∀ queue, numbersIn queue filings = told (Call.filed queue) (empty sharding) calls) ∧
      (∀ filed ∈ filings, accounted.count filed.id = 1) ∧
      (∀ item ∈ s.held, item.isPlaceholder = true ∨ ∃ filed ∈ filings, filed.id = item.id) ∧
      (∀ item ∈ s.held, ∀ filed ∈ filings, filed.id = item.id →
        item.Continues (unlockedIn calls) filed) ∧
      ∀ later ∈ (reached (calls ++ more)).held, later.id < s.nextId →
        ∃ item ∈ s.held, later.Continues (unlockedIn more) item := by
  intro s accounted filings
  have hstart := Sound.empty sharding
  obtain ⟨hs, hsharding⟩ := reached_sound calls
  have haccounted : accounted.Perm (Int.range 1 s.nextId) :=
    (s.ids_perm.append_right _).trans (ids_reached calls)
  have hascends : Ascends 1 s.nextId (filings.map (·.id)) := filings_ascend hstart rfl calls
  refine ⟨haccounted, hascends.1, ?_, ?_, ?_, ?_, ?_⟩
  · exact numbersIn_filings hstart rfl calls
  · intro filed hf
    have hrange := Int.mem_range_iff.2 (hascends.2 filed.id (List.mem_map_of_mem hf))
    have hnodup : accounted.Nodup := haccounted.nodup_iff.2 (nodup_range _ _)
    exact List.count_eq_one_of_mem hnodup (haccounted.mem_iff.2 hrange)
  · intro item hi
    rcases held_after hstart rfl hi with ⟨a, ha, -⟩ | ⟨-, hplace | ⟨filed, hf, hsame⟩⟩
    · rw [held_empty] at ha
      cases ha
    · exact Or.inl hplace
    · exact Or.inr ⟨filed, hf, hsame.id.symm⟩
  · intro item hi filed hf hid
    exact held_of_filing hstart rfl (Int.le_refl 1) (ids_start sharding) hi hf hid
  · intro later hl hlt
    have hafter : reached (calls ++ more) = s.after more := List.foldl_append
    rw [hafter] at hl
    rcases held_after hs hsharding hl with hold | ⟨hnew, -⟩
    · exact hold
    · exact absurd hlt (Int.not_lt.2 hnew)

end Store

end Courier
