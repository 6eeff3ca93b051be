/-
  Courier/Proofs/Supervisor/Termination.lean
  ==========================================
  **A drain comes to an end.**

  A drain is two nested loops that go on for as long as executions answer that more
  work is likely.  Nothing in them counts down, so they might go on forever:
  `Burst`, `Pass` and `Drains` say what they come to when they end.  They come to one
  answer at most (`Drains.unique`).  The budgets that `Supervisor.drain` gives them
  play no part as long as they exceed what is counted (`drainRounds_eq_ok_iff`).

  Over the in-process store the loops end, and without a failure
  (`Supervisor.drain_terminates`): each execution that answers that more work is
  likely uses up an item that was pending when the drain began.  The placeholder that
  a deferred lock leaves behind is due only after the instant at which the clock
  stands, so it adds nothing to what can be used up.
-/
import Courier.Proofs.Supervisor.Drain

namespace Courier

open Courier.Time

namespace Supervisor

/-! ### The loops of a drain -/

section Loops

variable {σ : Type} [Backend σ] {s s' : Supervisor σ} {i : Nat} {numbers : List Nat}
variable {answer other : Answer (Supervisor σ) Nat} {count budget rounds : Nat}

/-- A consumer is executed until it does not answer that more work is likely; what is counted is
    how often it did. -/
inductive Burst (i : Nat) : Supervisor σ → Answer (Supervisor σ) Nat → Prop where
  | fail {s s' : Supervisor σ} {e : Error} (turn : s.executeConsumer i = (.error e, s')) :
      Burst i s (.error e, s')
  | stop {s s' : Supervisor σ} (turn : s.executeConsumer i = (.ok false, s')) :
      Burst i s (.ok 0, s')
  | more {s s₁ : Supervisor σ} {answer : Answer (Supervisor σ) Nat}
      (turn : s.executeConsumer i = (.ok true, s₁)) (rest : Burst i s₁ answer) :
      Burst i s (answer.map (· + 1))

/-- Consumers have their bursts one after the other, up to the first that fails. -/
inductive Pass : List Nat → Supervisor σ → Answer (Supervisor σ) Nat → Prop where
  | done (s : Supervisor σ) : Pass [] s (.ok 0, s)
  | fail {i : Nat} {rest : List Nat} {s s' : Supervisor σ} {e : Error}
      (burst : Burst i s (.error e, s')) : Pass (i :: rest) s (.error e, s')
  | next {i count : Nat} {rest : List Nat} {s s₁ : Supervisor σ}
      {answer : Answer (Supervisor σ) Nat} (burst : Burst i s (.ok count, s₁))
      (others : Pass rest s₁ answer) : Pass (i :: rest) s (answer.map (count + ·))

/-- All consumers have their pass again and again, until nothing is counted in one. -/
inductive Drains : Supervisor σ → Answer (Supervisor σ) Nat → Prop where
  | fail {s s' : Supervisor σ} {e : Error}
      (pass : Pass (List.range s.fleet.world.consumers.length) s (.error e, s')) :
      Drains s (.error e, s')
  | quiet {s s' : Supervisor σ}
      (pass : Pass (List.range s.fleet.world.consumers.length) s (.ok 0, s')) :
      Drains s (.ok 0, s')
  | again {count : Nat} {s s₁ : Supervisor σ} {answer : Answer (Supervisor σ) Nat}
      (pass : Pass (List.range s.fleet.world.consumers.length) s (.ok (count + 1), s₁))
      (rest : Drains s₁ answer) : Drains s (answer.map (count + 1 + ·))

/-! ### The loops come to one answer at most -/

theorem Burst.unique (h : Burst i s answer) (h' : Burst i s other) : answer = other := by
  induction h generalizing other with
  | fail turn => cases h' <;> simp_all
  | stop turn => cases h' <;> simp_all
  | more turn rest ih =>
    cases h' with
    | fail turn' => simp_all
    | stop turn' => simp_all
    | more turn' rest' =>
      rw [turn] at turn'
      cases turn'
      rw [ih rest']

theorem Pass.unique (h : Pass numbers s answer) (h' : Pass numbers s other) : answer = other := by
  induction h generalizing other with
  | done s =>
    cases h'
    rfl
  | fail burst =>
    cases h' with
    | fail burst' => exact burst.unique burst'
    | next burst' others' => cases burst.unique burst'
  | next burst others ih =>
    cases h' with
    | fail burst' => cases burst.unique burst'
    | next burst' others' =>
      cases burst.unique burst'
      rw [ih others']

theorem Drains.unique (h : Drains s answer) (h' : Drains s other) : answer = other := by
  induction h generalizing other with
  | fail pass =>
    cases h' with
    | fail pass' => exact pass.unique pass'
    | quiet pass' => cases pass.unique pass'
    | again pass' rest' => cases pass.unique pass'
  | quiet pass =>
    cases h' with
    | fail pass' => cases pass.unique pass'
    | quiet pass' => exact pass.unique pass'
    | again pass' rest' => cases pass.unique pass'
  | again pass rest ih =>
    cases h' with
    | fail pass' => cases pass.unique pass'
    | quiet pass' => cases pass.unique pass'
    | again pass' rest' =>
      cases pass.unique pass'
      rw [ih rest']

/-! ### Budgets above the count -/

/-- A budget that exceeds the count plays no part in a burst. -/
theorem drainConsumer_eq_ok_iff (hlt : count < budget) :
    s.drainConsumer i budget = (.ok count, s') ↔ Burst i s (.ok count, s') := by
  induction budget generalizing s count with
  | zero => exact absurd hlt (Nat.not_lt_zero count)
  | succ budget ih =>
    unfold drainConsumer
    constructor
    · intro h
      split at h
      · cases h
      · rename_i turn
        cases h
        exact .stop turn
      · rename_i turn
        obtain ⟨rest, hrest, rfl⟩ := Answer.map_eq_ok_iff.1 h
        exact .more turn ((ih (by omega)).1 hrest)
    · intro h
      generalize hanswer : ((.ok count, s') : Answer (Supervisor σ) Nat) = answer at h
      cases h with
      | fail turn => cases hanswer
      | stop turn =>
        cases hanswer
        rw [turn]
      | more turn rest =>
        obtain ⟨counted, rfl, rfl⟩ := Answer.map_eq_ok_iff.1 hanswer.symm
        rw [turn]
        dsimp only
        rw [(ih (by omega)).2 rest]

theorem drainEach_eq_ok_iff (hlt : count < budget) :
    s.drainEach budget numbers = (.ok count, s') ↔ Pass numbers s (.ok count, s') := by
  induction numbers generalizing s count with
  | nil =>
    unfold drainEach
    constructor
    · intro h
      cases h
      exact .done _
    · intro h
      cases h
      rfl
  | cons i rest ih =>
    unfold drainEach
    constructor
    · intro h
      split at h
      · cases h
      · rename_i first s₁ burst
        obtain ⟨others, hothers, rfl⟩ := Answer.map_eq_ok_iff.1 h
        have hburst := (drainConsumer_eq_ok_iff (by omega)).1 burst
        exact .next hburst ((ih (by omega)).1 hothers)
    · intro h
      generalize hanswer : ((.ok count, s') : Answer (Supervisor σ) Nat) = answer at h
      cases h with
      | fail burst => cases hanswer
      | @next _ first _ _ s₁ _ burst others =>
        obtain ⟨counted, rfl, rfl⟩ := Answer.map_eq_ok_iff.1 hanswer.symm
        rw [(drainConsumer_eq_ok_iff (by omega)).2 burst]
        dsimp only
        rw [(ih (by omega)).2 others]

/-- Budgets that exceed the count play no part in a drain. -/
theorem drainRounds_eq_ok_iff (hlt : count < budget) (hrounds : count < rounds) :
    s.drainRounds budget rounds = (.ok count, s') ↔ Drains s (.ok count, s') := by
  induction rounds generalizing s count with
  | zero => exact absurd hrounds (Nat.not_lt_zero count)
  | succ rounds ih =>
    unfold drainRounds
    constructor
    · intro h
      split at h
      · cases h
      · rename_i pass
        cases h
        exact .quiet ((drainEach_eq_ok_iff hlt).1 pass)
      · rename_i first s₁ pass
        obtain ⟨later, hlater, rfl⟩ := Answer.map_eq_ok_iff.1 h
        have hpass := (drainEach_eq_ok_iff (by omega)).1 pass
        exact .again hpass ((ih (by omega) (by omega)).1 hlater)
    · intro h
      generalize hanswer : ((.ok count, s') : Answer (Supervisor σ) Nat) = answer at h
      cases h with
      | fail pass => cases hanswer
      | quiet pass =>
        cases hanswer
        rw [(drainEach_eq_ok_iff hlt).2 pass]
      | @again first _ s₁ _ pass rest =>
        obtain ⟨later, rfl, rfl⟩ := Answer.map_eq_ok_iff.1 hanswer.symm
        rw [(drainEach_eq_ok_iff (by omega)).2 pass]
        dsimp only
        rw [(ih (by omega) (by omega)).2 rest]

end Loops

/-! ### The loops end -/

variable {sharding : Sharding}

/-- The loops of a drain of a service over a reachable store end, without a failure and in one way
    only, whatever the requests come to; `drain` says how.  At most as many executions answer that
    more work is likely as there are items pending when the drain begins. -/
theorem drain_terminates (calls : List (Store.Call sharding)) (s : Supervisor Store)
    (hstore : s.store = Store.reached calls)
    (hstaff : s.fleet.world.consumers.map (·.shard) = sharding.shards) :
    ∃ turns s', s.Drains (.ok (Turn.settled turns), s') ∧
      (∀ answer, s.Drains answer → answer = (.ok (Turn.settled turns), s')) ∧
      s.drain = (.ok (Turn.settled turns), s') ∧ Runs s turns s' ∧
      Turn.settled turns ≤ (Store.reached calls).pendingCount := by
  obtain ⟨hsound, hsharding⟩ := Store.reached_sound calls
  rw [← hstore] at hsound hsharding
  have hs : s.Serves := ⟨hsound, by rw [hsharding, hstaff]⟩
  have hrank : (s.store.unspent s.clock.storeNow).length ≤ s.store.pendingCount :=
    s.store.length_unspent_le s.clock.storeNow
  obtain ⟨turns, last, s', hrun, hpays, -⟩ :=
    (settles s.clock.storeNow s.store.sharding).drainRounds ⟨hs, rfl, rfl⟩
      (Nat.lt_succ_of_le hrank) (Nat.lt_succ_of_le hrank)
  -- what is settled is paid for by items that are not spent yet
  have hcount : Turn.settled (turns ++ last) ≤ s.store.pendingCount := by
    have hpaid := hpays.paid
    omega
  have hdrains : s.Drains (.ok (Turn.settled (turns ++ last)), s') :=
    (drainRounds_eq_ok_iff (Nat.lt_succ_of_le hcount) (Nat.lt_succ_of_le hcount)).1 hrun
  refine ⟨turns ++ last, s', hdrains, ?_, hrun, hpays.runs, hstore ▸ hcount⟩
  intro answer hanswer
  exact hanswer.unique hdrains

/-- One item is to leave a lock on its queue, another one is filed, and a third queue is paused. -/
def lockLeftBehind : List (Store.Call .single) :=
  [⟨{ origin := ⟨10⟩ }, .operate (.enqueue ""
      { url := "http://h/ok", queue := some "a", lockWhenComplete := some "migration" })⟩,
   ⟨{ origin := ⟨11⟩ }, .operate (.enqueue "" { url := "http://h/bad", queue := some "b" })⟩,
   ⟨{ origin := ⟨12⟩ }, .operate (.pause ⟨"c", ⟨0, 1⟩⟩)⟩]

/-- A service over them; the first of the items is accepted, every other one is refused. -/
def acceptingTheFirst : Supervisor Store :=
  create
    { dispatcher :=
        { network := fun _ request => if request.itemId = 1 then .status 200 else .status 500 } }
    { origin := ⟨13⟩ } (Store.reached lockLeftBehind)

/-- A drain completes one item and fails one.  As many are pending afterwards as before, as the
    lock is left on a new placeholder. -/
theorem drain_ends_behind_a_lock :
    (acceptingTheFirst.store = Store.reached lockLeftBehind ∧
      acceptingTheFirst.fleet.world.consumers.map (·.shard) = Sharding.single.shards) ∧
    (Store.reached lockLeftBehind).pendingCount = 3 ∧
    acceptingTheFirst.drain.2.store.pendingCount = 3 ∧
    ∃ s', acceptingTheFirst.Drains (.ok 2, s') := by
  have hstaff : acceptingTheFirst.fleet.world.consumers.map (·.shard) =
    Sharding.single.shards := rfl
  have hcount : acceptingTheFirst.drain.1.toOption = some 2 := by decide +kernel
  refine ⟨⟨rfl, hstaff⟩, by decide +kernel, by decide +kernel, ?_⟩
  obtain ⟨turns, s', hdrains, -, hrun, -⟩ :=
    drain_terminates lockLeftBehind acceptingTheFirst rfl hstaff
  rw [hrun] at hcount
  have htwo : Turn.settled turns = 2 := Option.some.inj hcount
  rw [htwo] at hdrains
  exact ⟨s', hdrains⟩

end Supervisor

end Courier
