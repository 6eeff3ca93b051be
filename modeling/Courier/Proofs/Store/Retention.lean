/-
  Courier/Proofs/Store/Retention.lean
  ===================================
  **How long completed items are kept.**

  A completion is recorded behind all earlier ones.  As long as the clock of the
  store never goes back, the record of a shard is therefore in the order of time
  (`Store.after_ordered`), and the entries past their retention are the ones in
  front.  A purge goes through the whole record and takes away up to a thousand such
  entries; in an ordered record it takes away the front of it
  (`Store.purged_eq_drop`), so that purges one after another come to one larger
  purge: `Store.purge_takes_oldest`.
-/
import Courier.Proofs.Store.Archive
import Mathlib.Algebra.GroupWithZero.Nat
import Mathlib.Data.List.Count

namespace Courier

open Courier.Time

/-! ### Records in the order of completion -/

/-- Whether completed items stand in the order in which they were completed. -/
def InOrder (done : List CompletedItem) : Prop :=
  done.Pairwise fun a b => a.completedAt ≤ b.completedAt

/-- Whether a completed item has been kept for more than a fortnight. -/
def CompletedItem.Expired (done : CompletedItem) (now : Instant) : Prop :=
  done.completedAt + Span.ofDays 14 < now

instance (done : CompletedItem) (now : Instant) : Decidable (done.Expired now) :=
  inferInstanceAs (Decidable (_ < _))

/-- The number of completed items that have been kept for more than a fortnight. -/
def expiredCount (now : Instant) (done : List CompletedItem) : Nat :=
  done.countP fun entry => entry.Expired now

theorem CompletedItem.expired_iff {done : CompletedItem} {now : Instant} :
    done.Expired now ↔ done.completedAt < now - completedRetention := by
  simp only [Expired, completedRetention, Instant.lt_iff, Instant.nanos_add, Instant.nanos_sub]
  omega

section Order

variable {first : CompletedItem} {rest done : List CompletedItem} {now : Instant}

theorem InOrder.tail (h : InOrder (first :: rest)) : InOrder rest :=
  (List.pairwise_cons.1 h).2

theorem InOrder.drop (h : InOrder done) (n : Nat) : InOrder (done.drop n) :=
  List.Pairwise.sublist (List.drop_sublist n done) h

/-- Behind an entry that is not expired there is none that is. -/
theorem InOrder.expiredCount_eq_zero (h : InOrder (first :: rest)) (hkept : ¬ first.Expired now) :
    expiredCount now (first :: rest) = 0 := by
  refine List.countP_eq_zero.2 fun entry he => ?_
  rw [decide_eq_true_iff]
  rcases List.mem_cons.1 he with rfl | he
  · exact hkept
  · have hlater := (List.pairwise_cons.1 h).1 entry he
    intro hexpired
    simp only [CompletedItem.Expired, Instant.lt_iff, Instant.le_iff, Instant.nanos_add]
      at hkept hlater hexpired
    omega

theorem expiredCount_cons_of_expired (h : first.Expired now) :
    expiredCount now (first :: rest) = expiredCount now rest + 1 :=
  List.countP_cons_of_pos (decide_eq_true h)

/-- Expired entries stand in front, so what is taken from the front is expired as long as there are
    such entries. -/
theorem InOrder.expiredCount_drop (h : InOrder done) (n : Nat) :
    expiredCount now (done.drop n) = expiredCount now done - n := by
  induction done generalizing n with
  | nil =>
    rw [List.drop_nil]
    exact (Nat.zero_sub n).symm
  | cons first rest ih =>
    cases n with
    | zero => rfl
    | succ n =>
      rw [List.drop_succ_cons, ih h.tail]
      by_cases hexpired : first.Expired now
      · rw [expiredCount_cons_of_expired hexpired]
        omega
      · have hnone : expiredCount now rest ≤ expiredCount now (first :: rest) :=
          List.Sublist.countP_le (List.sublist_cons_self first rest)
        rw [h.expiredCount_eq_zero hexpired] at hnone ⊢
        omega

/-- An entry that is not expired stays, however many of the expired ones are taken away. -/
theorem InOrder.mem_drop (h : InOrder done) {entry : CompletedItem} (he : entry ∈ done)
    (hkept : ¬ entry.Expired now) {n : Nat} (hn : n ≤ expiredCount now done) :
    entry ∈ done.drop n := by
  induction done generalizing n with
  | nil => cases he
  | cons first rest ih =>
    cases n with
    | zero => exact he
    | succ n =>
      by_cases hexpired : first.Expired now
      · rw [expiredCount_cons_of_expired hexpired] at hn
        rcases List.mem_cons.1 he with rfl | he
        · exact absurd hexpired hkept
        · exact ih h.tail he (by omega)
      · rw [h.expiredCount_eq_zero hexpired] at hn
        omega

end Order

/-! ### One purge of a record -/

namespace Store

variable {now : Instant} {done : List CompletedItem}

/-- A purge of an ordered record takes away the front of it. -/
theorem purged_eq_drop (h : InOrder done) (budget : Nat) :
    purged (now - completedRetention) budget done =
      (done.drop (min budget (expiredCount now done)), min budget (expiredCount now done)) := by
  induction done generalizing budget with
  | nil =>
    have hnone : min budget (expiredCount now []) = 0 := Nat.min_zero budget
    rw [hnone]
    rfl
  | cons first rest ih =>
    unfold purged
    by_cases hexpired : first.Expired now
    · rw [expiredCount_cons_of_expired hexpired]
      cases budget with
      | zero =>
        rw [if_neg fun hpos => Nat.lt_irrefl 0 hpos.2, ih h.tail, Nat.zero_min, Nat.zero_min]
        rfl
      | succ budget =>
        rw [if_pos ⟨CompletedItem.expired_iff.1 hexpired, Nat.succ_pos budget⟩,
          Nat.add_sub_cancel, ih h.tail, Nat.succ_min_succ]
        rfl
    · have hnone := h.expiredCount_eq_zero hexpired
      have hrest : expiredCount now rest = 0 := by
        have hle : expiredCount now rest ≤ expiredCount now (first :: rest) :=
          List.Sublist.countP_le (List.sublist_cons_self first rest)
        omega
      rw [if_neg fun hold => hexpired (CompletedItem.expired_iff.2 hold.1), ih h.tail, hnone, hrest,
        Nat.min_zero]
      rfl

/-- A purge takes away expired entries only, in whatever order they stand. -/
theorem mem_purged {entry : CompletedItem} (he : entry ∈ done) (hkept : ¬ entry.Expired now)
    (budget : Nat) : entry ∈ (purged (now - completedRetention) budget done).1 := by
  induction done generalizing budget with
  | nil => cases he
  | cons first rest ih =>
    unfold purged
    split
    · rename_i hold
      rcases List.mem_cons.1 he with rfl | he
      · exact absurd (CompletedItem.expired_iff.2 hold.1) hkept
      · exact ih he _
    · rcases List.mem_cons.1 he with rfl | he
      · exact List.mem_cons_self
      · exact List.mem_cons_of_mem _ (ih he _)

end Store

/-! ### What the steps of a lane do to its record -/

namespace Lane

variable {sharding : Sharding} {now : Instant} {fresh : WorkItemId} {l l' : Lane} {event : Event}
variable {used : Int} {messages : List BlockingMessage}

/-- Whether the record of a lane is in order, with nothing in it completed after an instant. -/
structure Ordered (l : Lane) (now : Instant) : Prop where
  inOrder : InOrder l.completed
  past : ∀ done ∈ l.completed, done.completedAt ≤ now

theorem Ordered.mono {later : Instant} (h : l.Ordered now) (hle : now ≤ later) :
    l.Ordered later :=
  ⟨h.inOrder, fun done hd => Int.le_trans (h.past done hd) hle⟩

theorem Step.ordered (h : l.Step sharding now fresh event l' used messages)
    (ho : l.Ordered now) : l'.Ordered now := by
  by_cases hpurge : ∃ shard, event = .purged shard
  · obtain ⟨shard, rfl⟩ := hpurge
    cases h with
    | purge =>
      have hsub := Store.purged_sublist (now - completedRetention) purgeBatchSize l.completed
      exact ⟨ho.inOrder.sublist hsub, fun done hd => ho.past done (hsub.subset hd)⟩
  · have hcompleted := h.completed fun shard he => hpurge ⟨shard, he⟩
    have hnew : ∀ done ∈ event.retired.map (⟨·, now⟩ : WorkItem → CompletedItem),
        done.completedAt = now := by
      intro done hd
      obtain ⟨item, -, rfl⟩ := List.mem_map.1 hd
      rfl
    constructor
    · rw [hcompleted]
      refine List.pairwise_append.2 ⟨ho.inOrder, ?_, fun a ha b hb => ?_⟩
      · refine List.pairwise_of_forall_mem_list fun a ha b hb => ?_
        rw [hnew a ha, hnew b hb]
        exact Int.le_refl now.nanos
      · rw [hnew b hb]
        exact ho.past a ha
    · intro done hd
      rw [hcompleted] at hd
      rcases List.mem_append.1 hd with hold | hd
      · exact ho.past done hold
      · rw [hnew done hd]
        exact Int.le_refl now.nanos

/-- What is in the record of a lane and not expired stays there. -/
theorem Step.keeps_recorded (h : l.Step sharding now fresh event l' used messages)
    {done : CompletedItem} (hd : done ∈ l.completed) (hkept : ¬ done.Expired now) :
    done ∈ l'.completed := by
  by_cases hpurge : ∃ shard, event = .purged shard
  · obtain ⟨shard, rfl⟩ := hpurge
    cases h with
    | purge => exact Store.mem_purged hd hkept purgeBatchSize
  · rw [h.completed fun shard he => hpurge ⟨shard, he⟩]
    exact List.mem_append_left _ hd

end Lane

/-! ### Histories -/

namespace Store

variable {sharding : Sharding} {s s' : Store} {now : Instant} {event : Event}
variable {events : List Event} {shard : Shard} {lane : Lane}

/-- Whether the clock of the store never goes back in a history. -/
def NeverBack (calls : List (Call sharding)) : Prop :=
  calls.Pairwise fun c d => c.clock.storeNow ≤ d.clock.storeNow

instance (calls : List (Call sharding)) : Decidable (NeverBack calls) :=
  inferInstanceAs (Decidable (List.Pairwise _ _))

/-- Whether the records of all shards are in order, with nothing completed after an instant. -/
def Ordered (s : Store) (now : Instant) : Prop := ∀ lane ∈ s.lanes, lane.Ordered now

theorem Move.ordered (h : Move now s event s') (ho : s.Ordered now) : s'.Ordered now := by
  cases h with
  | record jobs => exact ho
  | clear =>
    intro new hnew
    obtain ⟨old, -, rfl⟩ := List.mem_map.1 hnew
    exact ⟨.nil, fun done hd => by cases hd⟩
  | @lane lane lane' event used messages mem step =>
    intro new hnew
    obtain ⟨old, hold, rfl⟩ := mem_replace.1 hnew
    have hlane := step.ordered (ho lane mem)
    split
    · exact ⟨hlane.inOrder, hlane.past⟩
    · exact ⟨(ho old hold).inOrder, (ho old hold).past⟩

/-- As long as the clock of the store never goes back, the records stay in order. -/
theorem after_ordered {calls : List (Call sharding)} (hclock : NeverBack calls) (hs : s.Sound)
    (hsharding : s.sharding = sharding) (ho : s.Ordered now)
    (hlate : ∀ c ∈ calls, now ≤ c.clock.storeNow) :
    ∀ lane ∈ (s.after calls).lanes, InOrder lane.completed := by
  induction calls generalizing s now with
  | nil => exact fun lane hl => (ho lane hl).inOrder
  | cons c rest ih =>
    obtain ⟨hlater, hrest⟩ := List.pairwise_cons.1 hclock
    obtain ⟨events, hmoves, -⟩ := c.traced hs hsharding
    obtain ⟨hs', hsharding'⟩ := c.run_sound hs hsharding
    have hnow : s.Ordered c.clock.storeNow :=
      fun lane hl => (ho lane hl).mono (hlate c List.mem_cons_self)
    exact ih hrest hs' hsharding'
      (hmoves.keeps (P := (·.Ordered c.clock.storeNow)) (fun _ move h => move.ordered h) hs hnow)
      hlater

theorem reached_ordered {calls : List (Call sharding)} (hclock : NeverBack calls) :
    ∀ lane ∈ (reached calls).lanes, InOrder lane.completed := by
  have hempty : ∀ now, (empty sharding).Ordered now := by
    intro now lane hl
    obtain ⟨shard, -, rfl⟩ := List.mem_map.1 hl
    exact ⟨.nil, fun done hd => by cases hd⟩
  cases calls with
  | nil => exact fun lane hl => (hempty default lane hl).inOrder
  | cons c rest =>
    refine after_ordered hclock (.empty sharding) rfl (hempty c.clock.storeNow) fun d hd => ?_
    rcases List.mem_cons.1 hd with rfl | hd
    · exact Int.le_refl _
    · exact (List.pairwise_cons.1 hclock).1 d hd

/-- Whether a completed item is in the record of a shard. -/
def Records (s : Store) (shard : Shard) (done : CompletedItem) : Prop :=
  ∃ lane, s.lane? shard = some lane ∧ done ∈ lane.completed

theorem Move.keeps_recorded (h : Move now s event s') (hs : s.Sound) {done : CompletedItem}
    (hd : s.Records shard done) (hkept : ¬ done.Expired now) (hclear : event ≠ .cleared) :
    s'.Records shard done := by
  obtain ⟨found, hfound, hd⟩ := hd
  cases h with
  | record jobs => exact ⟨found, hfound, hd⟩
  | clear => exact absurd rfl hclear
  | @lane lane lane' event used messages mem step =>
    unfold Records
    rw [lane?_replace, hfound]
    by_cases hhere : shard = lane'.shard
    · have hsame : found = lane := by
        obtain ⟨hmem, hshard⟩ := mem_of_lane? hfound
        exact hs.lane_eq hmem mem (hshard.trans (hhere.trans step.shard))
      rw [if_pos hhere]
      exact ⟨_, rfl, step.keeps_recorded (hsame ▸ hd) hkept⟩
    · rw [if_neg hhere]
      exact ⟨_, rfl, hd⟩

theorem Moves.keeps_recorded (h : Moves now s events s') (hs : s.Sound) {done : CompletedItem}
    (hd : s.Records shard done) (hkept : ¬ done.Expired now) (hclear : .cleared ∉ events) :
    s'.Records shard done := by
  induction h with
  | nil s => exact hd
  | cons move rest ih =>
    have hfirst := move.keeps_recorded hs hd hkept fun he => hclear (he ▸ List.mem_cons_self)
    exact ih (move.sound hs) hfirst fun he => hclear (List.mem_cons_of_mem _ he)

/-- What is in the record of a shard stays there until it is expired, unless everything is
    removed. -/
theorem after_keeps_recorded {calls : List (Call sharding)} {done : CompletedItem}
    (hcalls : ∀ c ∈ calls, c.request ≠ .operate .clear ∧ ¬ done.Expired c.clock.storeNow)
    (hs : s.Sound) (hsharding : s.sharding = sharding) (hd : s.Records shard done) :
    (s.after calls).Records shard done := by
  induction calls generalizing s with
  | nil => exact hd
  | cons c rest ih =>
    obtain ⟨hclear, hkept⟩ := hcalls c List.mem_cons_self
    obtain ⟨events, hmoves, haccounts⟩ := c.traced hs hsharding
    obtain ⟨hs', hsharding'⟩ := c.run_sound hs hsharding
    exact ih (fun d hd => hcalls d (List.mem_cons_of_mem _ hd)) hs' hsharding'
      (hmoves.keeps_recorded hs hd hkept fun he => hclear (haccounts.clears he))

/-! ### Purges -/

/-- A purge of a shard. -/
def Call.purging (clock : Clock) (shard : Shard) : Call sharding := ⟨clock, .operate (.purge shard)⟩

/-- The number of entries that a call answers to have removed, if it is a purge. -/
def Call.removedCount (c : Call sharding) (s : Store) : List Nat :=
  match (c.run s).1 with
  | .ok (.removed count) => [count]
  | _ => []

/-- A purge of a shard with an ordered record takes the oldest expired entries away, a thousand at
    most, and changes nothing else. -/
theorem purge_eq (hl : s.lane? shard = some lane) (h : InOrder lane.completed) (now : Instant) :
    s.purge now shard =
      (.ok (min 1000 (expiredCount now lane.completed)), s.setLane
        { lane with
          completed := lane.completed.drop (min 1000 (expiredCount now lane.completed)) }) := by
  simp only [purge, withLane, hl, purged_eq_drop h]
  rfl

/-- Purges one after another at one time come to one larger purge. -/
theorem after_purges (hs : s.Sound) (hsharding : s.sharding = sharding)
    (hl : s.lane? shard = some lane) (h : InOrder lane.completed) (clock : Clock) (m : Nat) :
    let removed := min (1000 * m) (expiredCount clock.storeNow lane.completed)
    let purges : List (Call sharding) := List.replicate m (.purging clock shard)
    s.after purges = s.setLane { lane with completed := lane.completed.drop removed } ∧
      (told Call.removedCount s purges).sum = removed := by
  induction m generalizing s lane with
  | zero =>
    intro removed purges
    have hnone : removed = 0 := Nat.zero_min _
    rw [hnone]
    exact ⟨(hs.setLane_self (mem_of_lane? hl).1).symm, rfl⟩
  | succ m ih =>
    intro removed purges
    let c : Call sharding := .purging clock shard
    let first := min 1000 (expiredCount clock.storeNow lane.completed)
    let lane' : Lane := { lane with completed := lane.completed.drop first }
    have hrun : c.run s = (.ok (.removed first), s.setLane lane') := by
      show (s.purge clock.storeNow shard).map Operation.Value.removed = _
      rw [purge_eq hl h]
      rfl
    obtain ⟨hs', hsharding'⟩ := c.run_sound hs hsharding
    have hafter : s.after purges = (c.run s).2.after (List.replicate m c) := rfl
    have htold : told Call.removedCount s purges =
        c.removedCount s ++ told Call.removedCount (c.run s).2 (List.replicate m c) := rfl
    have hcount : c.removedCount s = [first] := by
      simp only [Call.removedCount, hrun]
    rw [hrun] at hs' hsharding' hafter htold
    obtain ⟨hrest, hsum⟩ :=
      ih hs' hsharding' (lane?_setLane_self hl rfl) (h.drop first)
    -- the purges that follow find the expired entries that the first one has left
    have hleft : expiredCount clock.storeNow (lane.completed.drop first) =
        expiredCount clock.storeNow lane.completed - first := h.expiredCount_drop first
    have htotal : first + min (1000 * m) (expiredCount clock.storeNow lane'.completed) =
        removed := by
      show first + min (1000 * m) (expiredCount clock.storeNow (lane.completed.drop first)) = _
      rw [hleft]
      omega
    constructor
    · rw [hafter, hrest]
      simp only [lane', List.drop_drop, htotal]
      exact setLane_setLane s rfl
    · rw [htold, hcount, List.singleton_append, List.sum_cons, hsum, htotal]

/-- Of every history in which the clock of the store never goes back: the record of a shard is in
    the order of completion, a purge takes the oldest of the entries completed more than a fortnight
    before it, a thousand at most, answers how many, and changes nothing else, so that purges one
    after another at one time take a thousand times their number at most; and an entry that is not
    that old is never lost, unless everything is removed. -/
theorem purge_takes_oldest {calls : List (Call sharding)} (hclock : NeverBack calls)
    (hknown : shard ∈ sharding.shards) :
    ∃ lane, (reached calls).lane? shard = some lane ∧ InOrder lane.completed ∧
      (∀ now, (reached calls).purge now shard =
        (.ok (min 1000 (expiredCount now lane.completed)), (reached calls).setLane
          { lane with
            completed := lane.completed.drop (min 1000 (expiredCount now lane.completed)) })) ∧
      (∀ clock m,
        let removed := min (1000 * m) (expiredCount clock.storeNow lane.completed)
        let purges : List (Call sharding) := List.replicate m (.purging clock shard)
        (reached calls).after purges =
            (reached calls).setLane { lane with completed := lane.completed.drop removed } ∧
          (told Call.removedCount (reached calls) purges).sum = removed ∧
          ∀ done ∈ lane.completed, ¬ done.Expired clock.storeNow →
            done ∈ lane.completed.drop removed) ∧
      ∀ done ∈ lane.completed, ∀ later : List (Call sharding),
        (∀ c ∈ later, c.request ≠ .operate .clear ∧ ¬ done.Expired c.clock.storeNow) →
          ((reached calls).after later).Records shard done := by
  obtain ⟨hs, hsharding⟩ := reached_sound calls
  obtain ⟨lane, hl⟩ := hs.exists_lane (hsharding.symm ▸ hknown)
  have horder := reached_ordered hclock lane (mem_of_lane? hl).1
  refine ⟨lane, hl, horder, purge_eq hl horder, fun clock m => ?_, fun done hd later hlater => ?_⟩
  · obtain ⟨hafter, hsum⟩ := after_purges hs hsharding hl horder clock m
    exact ⟨hafter, hsum, fun done hd hkept => horder.mem_drop hd hkept (Nat.min_le_right _ _)⟩
  · exact after_keeps_recorded hlater hs hsharding ⟨lane, hl, hd⟩

/-- Two items that were completed in one queue, the second a second after the first. -/
def twoCompletions : List (Call .single) :=
  [⟨{ origin := .ofSeconds 0 }, .operate (.enqueue "a" { url := "http://a/1" })⟩,
   ⟨{ origin := .ofSeconds 1 }, .operate (.next ⟨0, 1⟩)⟩,
   ⟨{ origin := .ofSeconds 2 }, .operate (.complete 1 ⟨0, 1⟩)⟩,
   ⟨{ origin := .ofSeconds 2 }, .operate (.enqueue "b" { url := "http://b/2" })⟩,
   ⟨{ origin := .ofSeconds 3 }, .operate (.next ⟨0, 1⟩)⟩,
   ⟨{ origin := .ofSeconds 3 }, .operate (.complete 2 ⟨0, 1⟩)⟩]

/-- A fortnight to the instant after the second completion, a purge takes the first one only, and
    purges after it take nothing more. -/
theorem exact_fortnight_is_kept :
    let due : Clock := { origin := .ofSeconds 1209603 }
    let shard : Shard := ⟨0, 1⟩
    NeverBack twoCompletions ∧ shard ∈ Sharding.single.shards ∧
      ((reached twoCompletions).purge due.storeNow shard).1 = .ok 1 ∧
      ((reached twoCompletions).purge due.storeNow shard).2.archived.map (·.item.id) = [2] ∧
      ∀ m, (told Call.removedCount (reached twoCompletions)
        (List.replicate (m + 1) (.purging due shard) : List (Call .single))).sum = 1 := by
  intro due shard
  have hclock : NeverBack twoCompletions := by decide +kernel
  have hknown : shard ∈ Sharding.single.shards := by decide +kernel
  obtain ⟨lane, hl, -, hpurge, hpurges, -⟩ := purge_takes_oldest hclock hknown
  have hexpired : expiredCount due.storeNow lane.completed = 1 := by
    have hcount : ((reached twoCompletions).lane? shard).map
        (fun found => expiredCount due.storeNow found.completed) = some 1 := by
      decide +kernel
    rw [hl] at hcount
    exact Option.some.inj hcount
  refine ⟨hclock, hknown, ?_, by decide +kernel, fun m => ?_⟩
  · rw [hpurge, hexpired]
    rfl
  · have hsum := (hpurges due (m + 1)).2.1
    rw [hexpired] at hsum
    rw [hsum]
    omega

end Store

end Courier
