/-
  Courier/Proofs/Poll/Cancellation.lean
  =====================================
  **Loops that are asked to end.**

  `Loop.windUp` says what a loop comes to that was asked to end: a loop that waits
  ends at once, and one whose worker is being executed at the end of that execution,
  whatever its result.  No worker is executed any more, not even if loops are spawned
  or woken.  The invariant of the way there is `Winding`; it has one case for each
  stage of a loop that is about to end.
-/
import Courier.Proofs.Poll.Course
import Courier.Poll.Rehearsal
import Courier.Store.Backend
import Courier.Supervisor

namespace Courier.Poll

open Courier.Time

/-! ### How loops end -/

/-- The record of a loop that has ended. -/
def LoopStatus.stopped (s : LoopStatus) : LoopStatus := { s with state := .stopped }

@[simp] theorem LoopStatus.stopped_stopped (s : LoopStatus) : s.stopped.stopped = s.stopped := rfl

/-- The record of a loop after an execution that ends with a result. -/
def LoopStatus.ran (s : LoopStatus) (now : Instant) (result : Except Error Bool) : LoopStatus :=
  { s.finished now with
    lastError := match result with
      | .ok _ => s.lastError
      | .error e => some e.message }

namespace Loop

/-- What is seen of a loop that ends or has ended. -/
def shown (l : Loop) : Phase × LoopStatus := (l.phase, l.status)

/-- What is seen, at an uptime, of a loop that was asked to end before, at the time of `asked`.  One
    that was not running ends only if it was spawned since. -/
def windUp (l : Loop) (asked : Clock) (spawned : Bool) (uptime : Span) : Phase × LoopStatus :=
  match l.phase with
  | .unstarted | .ended => if spawned then (.ended, l.status.stopped) else l.shown
  | .due _ | .sleeping _ _ => (.ended, l.status.stopped)
  | .executing until_ result _ =>
    if uptime < until_ then l.shown
    else (.ended, (l.status.ran (asked.reach until_).now result).stopped)

/-- The stages of a loop that was asked to end.  `l` is the loop as it was then and `l'` the loop
    as it is at the time of `clock`. -/
inductive Winding (asked clock : Clock) (spawned : Bool) (l l' : Loop) : Prop
  /-- It does not run. -/
  | resting (hphase : l.phase = .unstarted) (hspawned : spawned = false)
      (hshown : l'.shown = l.shown)
  /-- An execution is in flight. -/
  | flying (until_ : Span) (result : Except Error Bool) (offset : Int)
      (hphase : l.phase = .executing until_ result offset) (hshown : l'.shown = l.shown)
      (hclock : clock.reach until_ = asked.reach until_)
  /-- It is about to see that it was asked to end. -/
  | leaving (at_ : Span) (hphase : l'.phase = .due at_)
      (hdue : at_ ≤ clock.uptime ∨ l.phase = .due at_)
      (hwound : l.windUp asked spawned clock.uptime = (.ended, l'.status.stopped))
  /-- It has ended. -/
  | left (hwound : l.windUp asked spawned clock.uptime = l'.shown) (hphase : l'.phase = .ended)

variable {l l' : Loop} {asked clock : Clock} {spawned : Bool}

theorem windUp_later {x y : Span} {s : LoopStatus} (hle : x ≤ y)
    (h : l.windUp asked spawned x = (.ended, s)) : l.windUp asked spawned y = (.ended, s) := by
  unfold windUp at h ⊢
  cases hphase : l.phase with
  | executing u result offset =>
    simp only [hphase] at h ⊢
    split at h
    · simp [shown, hphase] at h
    · rename_i hflown
      have hflown' : ¬ y < u := by
        simp only [Span.lt_iff, Span.le_iff] at *
        omega
      rw [if_neg hflown']
      exact h
  | _ => simpa [hphase] using h

theorem windUp_spawned {x : Span} {s : LoopStatus}
    (h : l.windUp asked spawned x = (.ended, s)) : l.windUp asked true x = (.ended, s.stopped) := by
  unfold windUp at h ⊢
  cases hphase : l.phase with
  | unstarted =>
    simp only [hphase] at h ⊢
    split at h
    · cases h
      rfl
    · simp [shown, hphase] at h
  | ended =>
    simp only [hphase] at h ⊢
    split at h
    · cases h
      rfl
    · simp_all [shown]
  | due t =>
    simp only [hphase] at h ⊢
    cases h
    rfl
  | sleeping t wakeable =>
    simp only [hphase] at h ⊢
    cases h
    rfl
  | executing u result offset =>
    simp only [hphase] at h ⊢
    split at h
    · simp [shown, hphase] at h
    · rename_i hflown
      rw [if_neg hflown]
      cases h
      rfl

theorem Winding.later {clock' : Clock} (h : l.Winding asked clock spawned l')
    (hle : clock.uptime ≤ clock'.uptime)
    (hreach : ∀ u result offset, l'.phase = .executing u result offset →
      clock'.reach u = clock.reach u) : l.Winding asked clock' spawned l' := by
  cases h with
  | resting hphase hspawned hshown => exact .resting hphase hspawned hshown
  | flying u result offset hphase hshown hclock =>
    have hphase' : l'.phase = .executing u result offset :=
      (congrArg Prod.fst hshown).trans hphase
    exact .flying u result offset hphase hshown ((hreach u result offset hphase').trans hclock)
  | leaving t hphase hdue hwound =>
    exact .leaving t hphase (hdue.imp_left (Int.le_trans · hle)) (windUp_later hle hwound)
  | left hwound hphase =>
    have hended : l'.shown = (.ended, l'.status) := by simp [shown, hphase]
    rw [hended] at hwound
    exact .left ((windUp_later hle hwound).trans hended.symm) hphase

theorem Winding.of_shown {l'' : Loop} (h : l.Winding asked clock spawned l')
    (hshown : l''.shown = l'.shown) : l.Winding asked clock spawned l'' := by
  have hphase : l''.phase = l'.phase := congrArg Prod.fst hshown
  have hstatus : l''.status = l'.status := congrArg Prod.snd hshown
  cases h with
  | resting hrest hspawned hsame => exact .resting hrest hspawned (hshown.trans hsame)
  | flying u result offset hflight hsame hclock =>
    exact .flying u result offset hflight (hshown.trans hsame) hclock
  | leaving t hdue hle hwound =>
    exact .leaving t (hphase.trans hdue) hle (by rw [hstatus]; exact hwound)
  | left hwound hended => exact .left (hwound.trans hshown.symm) (hphase.trans hended)

theorem Winding.not_sleeping (h : l.Winding asked clock spawned l') (u : Span) (wakeable : Bool) :
    l'.phase ≠ .sleeping u wakeable := by
  cases h with
  | resting hphase hspawned hshown =>
    have hsame : l'.phase = l.phase := congrArg Prod.fst hshown
    simp [hsame, hphase]
  | flying u result offset hphase hshown hclock =>
    have hsame : l'.phase = l.phase := congrArg Prod.fst hshown
    simp [hsame, hphase]
  | leaving t hphase hdue hwound => simp [hphase]
  | left hwound hphase => simp [hphase]

theorem Winding.wake (h : l.Winding asked clock spawned l') (uptime : Span) :
    l.Winding asked clock spawned (l'.wake uptime) := by
  apply h.of_shown
  rw [Loop.wake_of_busy l' uptime fun u => h.not_sleeping u true]
  rfl

theorem Winding.cancel (h : l.Winding asked clock spawned l') (uptime : Span) :
    l.Winding asked clock spawned (l'.cancel uptime) := by
  apply h.of_shown
  unfold Loop.cancel
  split
  · rename_i hphase
    exact absurd hphase (h.not_sleeping _ _)
  · rfl

theorem Winding.spawn (h : l.Winding asked clock spawned l') :
    l.Winding asked clock true (l'.spawn clock.uptime) := by
  cases h with
  | resting hphase hspawned hshown =>
    obtain ⟨hphase', hstatus⟩ := Prod.mk.inj hshown
    apply Winding.leaving clock.uptime
    · simp [Loop.spawn, hphase', hphase]
    · exact Or.inl (Int.le_refl _)
    · simp [windUp, Loop.spawn, hphase, hphase', hstatus]
  | flying u result offset hphase hshown hclock =>
    obtain ⟨hphase', -⟩ := Prod.mk.inj hshown
    apply Winding.flying u result offset hphase _ hclock
    rw [← hshown]
    simp [Loop.spawn, hphase', hphase]
  | leaving t hphase hdue hwound =>
    apply Winding.leaving t
    · simp [Loop.spawn, hphase]
    · exact hdue
    · simpa [Loop.spawn, hphase] using windUp_spawned hwound
  | left hwound hphase =>
    apply Winding.leaving clock.uptime
    · simp [Loop.spawn, hphase]
    · exact Or.inl (Int.le_refl _)
    · have hended : l'.shown = (.ended, l'.status) := by simp [shown, hphase]
      rw [hended] at hwound
      simpa [Loop.spawn, hphase] using windUp_spawned hwound

theorem endExecution_of_cancelled (clock : Clock) (hcancelled : l.cancelled = true)
    (result : Except Error Bool) (offset : Int) :
    (l.endExecution clock result offset).phase = .due clock.uptime ∧
      (l.endExecution clock result offset).status.stopped =
        (l.status.ran clock.now result).stopped := by
  unfold endExecution
  cases result with
  | error e => simp [Loop.sleep, hcancelled, LoopStatus.stopped, LoopStatus.ran]
  | ok more => cases more <;>
    simp [Loop.sleep, hcancelled, LoopStatus.stopped, LoopStatus.ran, LoopStatus.finished]

theorem Winding.goOn (h : l.Winding asked clock spawned l') (hcancelled : l'.cancelled = true)
    (execution : Execution) (hdue : ∀ t, l'.wakesAt? = some t → t ≤ clock.uptime) :
    l.Winding asked clock spawned (l'.goOn clock execution) := by
  cases h with
  | resting hphase hspawned hshown =>
    obtain ⟨hphase', -⟩ := Prod.mk.inj hshown
    rw [hphase] at hphase'
    simpa [Loop.goOn, hphase'] using Winding.resting hphase hspawned hshown
  | flying u result offset hphase hshown hclock =>
    obtain ⟨hphase', hstatus⟩ := Prod.mk.inj hshown
    rw [hphase] at hphase'
    have hflown : u ≤ clock.uptime := hdue u (by simp [Loop.wakesAt?, hphase'])
    -- The clock stands at the end of the execution, or where the loop was asked to end if that was
    -- later.
    have hnow : clock = asked.reach u := by
      rw [← hclock, Clock.reach_of_le hflown]
    obtain ⟨hnext, hrecord⟩ :=
      endExecution_of_cancelled clock hcancelled result offset
    apply Winding.leaving clock.uptime
    · simpa [Loop.goOn, hphase'] using hnext
    · exact Or.inl (Int.le_refl _)
    · have hlate : ¬ clock.uptime < u := Int.not_lt.2 hflown
      simp only [windUp, hphase, if_neg hlate, Loop.goOn, hphase', hrecord, hstatus, ← hnow]
  | leaving t hphase hle hwound =>
    simp only [Loop.goOn, hphase, if_pos hcancelled]
    exact .left hwound rfl
  | left hwound hphase =>
    simpa [Loop.goOn, hphase] using Winding.left hwound hphase

theorem wakesAt?_of_not_isRunning (h : l.isRunning = false) : l.wakesAt? = none := by
  unfold isRunning at h
  unfold wakesAt?
  split at h
  · simp_all
  · simp_all
  · cases h

theorem windUp_of_not_isRunning {x : Span} (h : l.isRunning = false) :
    l.windUp asked true x = (.ended, l.status.stopped) := by
  unfold isRunning at h
  unfold windUp
  split at h
  · simp_all
  · simp_all
  · cases h

theorem Winding.refl (h : l.isRunning = false) : l.Winding clock clock false l := by
  cases hphase : l.phase with
  | unstarted => exact .resting hphase rfl rfl
  | ended => exact .left (by simp [windUp, hphase]) hphase
  | _ => simp [isRunning, hphase] at h

theorem Winding.begin (l : Loop) :
    l.Winding asked asked false (l.cancel asked.uptime) := by
  cases hphase : l.phase with
  | unstarted => exact .resting hphase rfl (by simp [Loop.cancel, hphase, shown])
  | due t =>
    apply Winding.leaving t
    · simp [Loop.cancel, hphase]
    · exact Or.inr hphase
    · simp [windUp, Loop.cancel, hphase]
  | executing u result offset =>
    apply Winding.flying u result offset hphase
    · simp [Loop.cancel, hphase, shown]
    · rfl
  | sleeping u wakeable =>
    apply Winding.leaving asked.uptime
    · simp [Loop.cancel, hphase]
    · exact Or.inl (Int.le_refl _)
    · simp [windUp, Loop.cancel, hphase]
  | ended =>
    apply Winding.left
    · simp [windUp, Loop.cancel, hphase, shown]
    · simp [Loop.cancel, hphase]

/-- Once nothing more can happen up to an uptime, a loop is what it was to come to. -/
theorem Winding.shown_eq (h : l.Winding asked clock spawned l')
    (hlate : ∀ t, l'.wakesAt? = some t → clock.uptime < t ∧ l.phase ≠ .due t) :
    l'.shown = l.windUp asked spawned clock.uptime := by
  cases h with
  | resting hphase hspawned hshown => simp [windUp, hphase, hspawned, hshown]
  | flying u result offset hphase hshown hclock =>
    obtain ⟨hphase', -⟩ := Prod.mk.inj hshown
    have hflying : clock.uptime < u := (hlate u (by simp [Loop.wakesAt?, hphase', hphase])).1
    simp [windUp, hphase, if_pos hflying, hshown]
  | leaving t hphase hdue hwound =>
    obtain ⟨hless, hnot⟩ := hlate t (by simp [Loop.wakesAt?, hphase])
    exact absurd hdue (not_or.2 ⟨Int.not_le.2 hless, hnot⟩)
  | left hwound hphase => exact hwound.symm

theorem phase_sleep (l : Loop) (uptime span : Span) (state : LoopState) (wakeable : Bool) :
    (l.sleep uptime span state wakeable).phase = .due uptime ∨
      (l.sleep uptime span state wakeable).phase = .sleeping (uptime + span) wakeable := by
  unfold sleep
  dsimp only
  split
  · exact Or.inl rfl
  · split
    · exact Or.inl rfl
    · exact Or.inr rfl

theorem due_of_endExecution {result : Except Error Bool} {offset : Int} {t : Span}
    (h : (l.endExecution clock result offset).phase = .due t) : t = clock.uptime := by
  have hslept {l : Loop} {span : Span} {state : LoopState} {wakeable : Bool}
      (h : (l.sleep clock.uptime span state wakeable).phase = .due t) : t = clock.uptime := by
    rcases l.phase_sleep clock.uptime span state wakeable with hdue | hsleeps
    · exact Phase.due.inj (h.symm.trans hdue)
    · cases h.symm.trans hsleeps
  unfold endExecution at h
  cases result with
  | error e => exact hslept h
  | ok more =>
    cases more with
    | true => exact (Phase.due.inj h).symm
    | false => exact hslept h

theorem due_of_goOn {execution : Execution} {t : Span}
    (h : (l.goOn clock execution).phase = .due t) : l.phase = .due t ∨ t = clock.uptime := by
  unfold goOn at h
  split at h
  · exact Or.inl h
  · exact Or.inl h
  · split at h
    · cases h
    · unfold run at h
      dsimp only at h
      split at h
      · cases h
      · exact Or.inr (due_of_endExecution h)
  · exact Or.inr (due_of_endExecution h)
  · exact Or.inr (Phase.due.inj h).symm

theorem due_of_wake {uptime t : Span} (h : (l.wake uptime).phase = .due t) :
    l.phase = .due t ∨ t = uptime := by
  unfold wake at h
  split at h
  · split at h
    · exact Or.inr (Phase.due.inj h).symm
    · exact Or.inl h
  · exact Or.inl h

/-- How many events a loop that was asked to end can still have. -/
def eventsLeft (l : Loop) : Nat :=
  match l.phase with
  | .unstarted | .ended => 0
  | .due _ => 1
  | .executing _ _ _ | .sleeping _ _ => 2

theorem eventsLeft_le (l : Loop) : l.eventsLeft ≤ 2 := by
  unfold eventsLeft
  split <;> omega

@[simp] theorem cancelled_spawn (l : Loop) (uptime : Span) :
    (l.spawn uptime).cancelled = l.cancelled := by
  unfold spawn
  split <;> rfl

@[simp] theorem cancelled_cancel (l : Loop) (uptime : Span) :
    (l.cancel uptime).cancelled = true := by
  unfold cancel
  split <;> rfl

@[simp] theorem cancelled_goOn (l : Loop) (execution : Execution) :
    (l.goOn clock execution).cancelled = l.cancelled := by
  unfold goOn
  split
  · rfl
  · rfl
  · split
    · rfl
    · simp
  · simp
  · rfl

theorem eventsLeft_goOn_lt {t : Span} {execution : Execution} (hcancelled : l.cancelled = true)
    (hwakes : l.wakesAt? = some t) : (l.goOn clock execution).eventsLeft < l.eventsLeft := by
  cases hphase : l.phase with
  | unstarted => simp [wakesAt?, hphase] at hwakes
  | ended => simp [wakesAt?, hphase] at hwakes
  | due t => simp [goOn, hphase, hcancelled, eventsLeft, stop]
  | sleeping u wakeable => simp [goOn, hphase, eventsLeft, rise]
  | executing u result offset =>
    have hnext := (endExecution_of_cancelled clock hcancelled result offset).1
    simp [goOn, hphase, eventsLeft, hnext]

end Loop

namespace Fleet

variable {ω : Type} {workers : Workers ω} {asked f g : Fleet ω} {spawned : Bool}

/-! ### Fleets that are asked to end -/

/-- All loops of a fleet wind up since they were as in `asked`, and nothing was done meanwhile. -/
structure WindsUp (asked : Fleet ω) (spawned : Bool) (f : Fleet ω) : Prop where
  world : f.world = asked.world
  uptime : asked.clock.uptime ≤ f.clock.uptime
  length : f.loops.length = asked.loops.length
  loops : f.Each fun j l' => l'.cancelled = true ∧
    ∀ l, asked.loops[j]? = some l → l.Winding asked.clock f.clock spawned l'

/-- How many events the loops of a fleet that was asked to end can still have. -/
def eventsLeft (f : Fleet ω) : Nat := f.loops.foldr (·.eventsLeft + ·) 0

theorem eventsLeft_le (f : Fleet ω) : f.eventsLeft ≤ 2 * f.loops.length := by
  unfold eventsLeft
  induction f.loops with
  | nil => simp
  | cons l rest ih =>
    have hl := l.eventsLeft_le
    simp only [List.foldr_cons, List.length_cons]
    omega

theorem eventsLeft_updateLoop_lt {i : Nat} {l : Loop} {change : Loop → Loop}
    (hl : f.loops[i]? = some l) (hless : (change l).eventsLeft < l.eventsLeft) :
    (f.updateLoop i change).eventsLeft < f.eventsLeft := by
  obtain ⟨clock, loops, world⟩ := f
  unfold eventsLeft updateLoop
  dsimp only at hl ⊢
  induction loops generalizing i with
  | nil => simp at hl
  | cons other rest ih =>
    cases i with
    | zero =>
      cases hl
      simpa using hless
    | succ i =>
      rw [List.getElem?_cons_succ] at hl
      simpa using ih hl

theorem lasting_winding (asked : Fleet ω) (spawned : Bool) :
    Lasting fun clock j l' => l'.cancelled = true ∧
      ∀ l, asked.loops[j]? = some l → l.Winding asked.clock clock spawned l' where
  reach := by
    rintro clock j l' t ⟨hcancelled, h⟩ hfirst
    refine ⟨hcancelled, fun l hl => (h l hl).later ?_ ?_⟩
    · exact Clock.uptime_le_reach clock t
    · intro u result offset hphase
      exact Clock.reach_reach clock (hfirst u (by simp [Loop.wakesAt?, hphase]))
  wake := by
    rintro clock j l' ⟨hcancelled, h⟩
    refine ⟨?_, fun l hl => (h l hl).wake clock.uptime⟩
    simpa using hcancelled
  goOn := by
    rintro clock j l' execution ⟨hcancelled, h⟩ hdue
    refine ⟨?_, fun l hl => (h l hl).goOn hcancelled execution hdue⟩
    simpa using hcancelled

/-- Nothing is executed in an event, and there are fewer of them left. -/
theorem WindsUp.step {deadline : Span} (h : asked.WindsUp spawned f)
    (hstep : f.step? workers deadline = some g) :
    asked.WindsUp spawned g ∧ g.eventsLeft < f.eventsLeft := by
  have hloops := (lasting_winding asked spawned).step h.loops hstep
  obtain ⟨i, l, t, hl, hat, -, -, rfl⟩ := step?_eq_some hstep
  have hcancelled : l.cancelled = true := (h.loops i l hl).1
  obtain ⟨change, heq, hchange⟩ :=
    goOn_of_cancelled workers { f with clock := f.clock.reach t } i hcancelled
  refine ⟨⟨?_, ?_, ?_, hloops⟩, ?_⟩
  · rw [heq]
    exact h.world
  · rw [clock_goOn]
    exact Int.le_trans h.uptime (Clock.uptime_le_reach f.clock t)
  · simpa using h.length
  · rw [heq]
    apply eventsLeft_updateLoop_lt hl
    rw [hchange default]
    exact Loop.eventsLeft_goOn_lt hcancelled hat

theorem WindsUp.pass (h : asked.WindsUp spawned f) (workers : Workers ω) {span : Span}
    (hspan : 0 ≤ span) (n : Nat) :
    asked.WindsUp spawned (f.pass workers span n) ∧ (f.pass workers span n).Quiet := by
  have henough : f.eventsLeft ≤ f.eventBound span n := by
    have hfew := f.eventsLeft_le
    have hmany : 4 * (f.loops.length + 1) * 1 ≤
        4 * (f.loops.length + 1) * ((span.nanos / f.grain).toNat + 2) :=
      Nat.mul_le_mul_left _ (by omega)
    unfold eventBound
    omega
  obtain ⟨g, hg, hclock, hpass, hquiet⟩ := pass_settles workers (P := asked.WindsUp spawned)
    eventsLeft (fun _ _ hf hstep => hf.step hstep) hspan h henough
  rw [hpass] at hquiet ⊢
  refine ⟨⟨hg.world, Int.le_trans hg.uptime hclock, hg.length, ?_⟩, hquiet⟩
  intro j l' hl'
  rw [Clock.at_eq_reach hclock]
  apply (lasting_winding asked spawned).reach _ (hg.loops j l' hl')
  intro u hu
  exact Int.le_of_lt (hquiet l' (List.mem_of_getElem? hl') u hu)

theorem WindsUp.passTo (h : asked.WindsUp spawned f) (workers : Workers ω) (pending : ω → Nat)
    (uptime : Span) :
    asked.WindsUp spawned (f.passTo workers pending uptime) := by
  unfold Fleet.passTo
  split
  · rename_i hless
    exact (h.pass workers (Span.sub_nonneg hless) _).1
  · exact h

theorem WindsUp.spawnAll (h : asked.WindsUp spawned f) : asked.WindsUp true f.spawnAll where
  world := h.world
  uptime := h.uptime
  length := by simpa [Fleet.spawnAll, updateAll] using h.length
  loops := by
    refine h.loops.updateAll fun j l' hl' => ⟨?_, fun l hl => (hl'.2 l hl).spawn⟩
    simpa using hl'.1

theorem WindsUp.perform (h : asked.WindsUp spawned f) (workers : Workers ω) (pending : ω → Nat)
    {call : Call} (hcall : ∀ i, call ≠ .execute i) :
    asked.WindsUp (spawned || call = .spawn) (f.perform workers pending call) := by
  cases call with
  | spawn => simpa [Fleet.perform] using h.spawnAll
  | wake numbers =>
    simp only [reduceCtorEq, decide_false, Bool.or_false]
    refine ⟨?_, ?_, ?_, ?_⟩
    · simpa [Fleet.perform] using h.world
    · simpa [Fleet.perform] using h.uptime
    · simpa [Fleet.perform] using h.length
    · rw [Fleet.perform, clock_wakeAll]
      exact h.loops.wakeAll numbers fun j l hl => (lasting_winding asked spawned).wake hl
  | cancel =>
    simp only [reduceCtorEq, decide_false, Bool.or_false]
    refine ⟨h.world, h.uptime, ?_, ?_⟩
    · simpa using h.length
    · exact h.loops.updateAll fun j l' hl' => ⟨by simp, fun l hl => (hl'.2 l hl).cancel _⟩
  | execute i => exact absurd rfl (hcall i)

theorem WindsUp.course (h : asked.WindsUp spawned f) (workers : Workers ω) (pending : ω → Nat)
    {calls : List (Span × Call)} (hcalls : ∀ entry ∈ calls, ∀ i, entry.2 ≠ .execute i) :
    asked.WindsUp (spawned || calls.any fun entry => entry.2 = .spawn)
      (f.course workers pending calls) := by
  induction calls generalizing f spawned with
  | nil => simpa [Fleet.course] using h
  | cons entry rest ih =>
    obtain ⟨t, call⟩ := entry
    rw [List.forall_mem_cons] at hcalls
    have hnext := (h.passTo workers pending t).perform workers pending hcalls.1
    have hrest := ih hnext hcalls.2
    rwa [Bool.or_assoc] at hrest

theorem WindsUp.cancelAll (f : Fleet ω) : f.WindsUp false f.cancelAll where
  world := rfl
  uptime := Int.le_refl _
  length := by simp [Fleet.cancelAll, updateAll]
  loops := by
    -- The relation is between a loop and itself, so that it can be stated of one list of loops.
    have hself : f.Each fun j l' => ∀ l, f.loops[j]? = some l → l' = l := by
      intro j l' hl' l hl
      exact Option.some.inj (hl'.symm.trans hl)
    refine hself.updateAll fun j l' hl' => ⟨Loop.cancelled_cancel l' _, fun l hl => ?_⟩
    rw [hl' l hl]
    exact Loop.Winding.begin l

theorem WindsUp.shown_eq (h : asked.WindsUp spawned f)
    (hlate : ∀ l' ∈ f.loops, ∀ t, l'.wakesAt? = some t →
      f.clock.uptime < t ∧ ∀ l ∈ asked.loops, l.phase ≠ .due t) :
    f.loops.map Loop.shown =
      asked.loops.map (·.windUp asked.clock spawned f.clock.uptime) := by
  apply List.ext_getElem
  · simpa using h.length
  · intro j hj hj'
    rw [List.length_map] at hj hj'
    have hl' : f.loops[j]? = some f.loops[j] := List.getElem?_eq_getElem hj
    have hl : asked.loops[j]? = some asked.loops[j] := List.getElem?_eq_getElem hj'
    rw [List.getElem_map, List.getElem_map]
    apply ((h.loops j _ hl').2 _ hl).shown_eq
    intro t ht
    obtain ⟨hless, hnot⟩ := hlate _ (List.getElem_mem hj) t ht
    exact ⟨hless, hnot _ (List.getElem_mem hj')⟩

/-- When a fleet that was asked to end has been waited for, none of its loops runs. -/
theorem WindsUp.join (h : asked.WindsUp spawned f) (workers : Workers ω) :
    asked.WindsUp spawned (f.join workers) ∧
      ∀ l ∈ (f.join workers).loops, l.isRunning = false := by
  have henough : f.eventsLeft ≤ 4 * (f.loops.length + 1) := by
    have hfew := f.eventsLeft_le
    omega
  obtain ⟨hrun, hends⟩ := runToEnd_ends workers (P := asked.WindsUp spawned) eventsLeft
    (fun _ _ _ hf hstep => hf.step hstep) h henough
  refine ⟨hrun, fun l hl => hends l hl ?_⟩
  obtain ⟨j, hj⟩ := List.mem_iff_getElem?.1 hl
  exact (hrun.loops j l hj).1

theorem WindsUp.again (h : asked.WindsUp spawned f)
    (hends : ∀ l ∈ f.loops, l.isRunning = false) : f.WindsUp false f where
  world := rfl
  uptime := Int.le_refl _
  length := rfl
  loops := by
    intro j l' hl'
    refine ⟨(h.loops j l' hl').1, fun l hl => ?_⟩
    cases hl.symm.trans hl'
    exact Loop.Winding.refl (hends l' (List.mem_of_getElem? hl'))

/-- No loop is due later than now. -/
theorem enduring_due : Enduring fun clock _ l => ∀ t, l.phase = .due t → t ≤ clock.uptime where
  later := by
    intro clock j l u hle h t ht
    exact Int.le_trans (h t ht) hle
  wake := by
    intro clock j l h t ht
    rcases Loop.due_of_wake ht with hdue | rfl
    · exact h t hdue
    · exact Int.le_refl _
  goOn := by
    intro clock j l execution h _ t ht
    rcases Loop.due_of_goOn ht with hdue | rfl
    · exact h t hdue
    · exact Int.le_refl _

theorem due_le_uptime (workers : Workers ω) (pending : ω → Nat) (clock : Clock)
    (settings : List Settings) (world : ω) (calls : List (Span × Call)) (uptime : Span) :
    let f := ((create clock settings world).course workers pending calls).passTo workers pending
      uptime
    f.Each fun _ l => ∀ t, l.phase = .due t → t ≤ f.clock.uptime := by
  have hcreated : (create clock settings world).Each fun _ l =>
      ∀ t, l.phase = .due t → t ≤ clock.uptime := by
    intro j l hl t ht
    simp only [create, List.getElem?_map, Option.map_eq_some_iff] at hl
    obtain ⟨habits, -, rfl⟩ := hl
    cases ht
  apply enduring_due.passTo
  apply enduring_due.course calls _ _ _ hcreated
  · intro _ clock j l h t ht
    unfold Loop.spawn at ht
    split at ht
    · cases ht
      exact Int.le_refl _
    · cases ht
      exact Int.le_refl _
    · exact h t ht
  · intro _ clock j l h t ht
    unfold Loop.cancel at ht
    split at ht
    · cases ht
      exact Int.le_refl _
    · exact h t ht
  · intro i _ clock l h
    exact ⟨h, h⟩

end Fleet

/-- **Loops that are asked to end do so cleanly.**  From then on no worker is executed: neither by
    loops that run nor by loops that are spawned or woken.  Each loop ends at once if it waits, and
    with the execution that is in flight if there is one.  A service that is shut down waits until
    none of its loops runs, and if it is started again, its loops end without an execution. -/
theorem cancelled_loops_end {ω : Type} (workers : Workers ω) (pending : ω → Nat) (clock : Clock)
    (settings : List Settings) (world : ω) (before after : List (Span × Call)) (at_ span : Span)
    (n : Nat) (hafter : ∀ entry ∈ after, ∀ i, entry.2 ≠ .execute i) (hspan : 0 ≤ span)
    {σ : Type} [Backend σ] (s : Supervisor σ) :
    let f := ((Fleet.create clock settings world).course workers pending before).passTo workers
      pending at_
    let g := (f.cancelAll.course workers pending after).pass workers span n
    (g.world = f.world ∧
      g.loops.map Loop.shown = f.loops.map
        (·.windUp f.clock (after.any fun entry => entry.2 = .spawn) g.clock.uptime)) ∧
    (s.shutdown.fleet.world = s.fleet.world ∧
      (∀ l ∈ s.shutdown.fleet.loops, l.isRunning = false) ∧
      s.shutdown.fleet.loops.map Loop.shown =
        s.fleet.loops.map (·.windUp s.clock false s.shutdown.clock.uptime)) ∧
    (s.shutdown.start.pass span).fleet.world = s.fleet.world ∧
      (s.shutdown.start.pass span).fleet.loops.map Loop.shown =
        s.shutdown.fleet.loops.map fun l => (.ended, l.status.stopped) := by
  intro f g
  refine ⟨?_, ?_⟩
  · have hcourse := (Fleet.WindsUp.cancelAll f).course workers pending hafter
    obtain ⟨hpassed, hlate⟩ := hcourse.pass workers hspan n
    refine ⟨hpassed.world, hpassed.shown_eq fun l' hl' t ht => ?_⟩
    have hless := hlate l' hl' t ht
    refine ⟨hless, fun l hl hdue => ?_⟩
    obtain ⟨j, hj⟩ := List.mem_iff_getElem?.1 hl
    have hnow := Fleet.due_le_uptime workers pending clock settings world before at_
      j l hj t hdue
    exact absurd hless (Int.not_lt.2 (Int.le_trans hnow hpassed.uptime))
  · obtain ⟨hjoined, hends⟩ :=
      (Fleet.WindsUp.cancelAll s.fleet).join (Supervisor.workers s.settings)
    refine ⟨⟨hjoined.world, hends, hjoined.shown_eq ?_⟩, ?_⟩
    · intro l' hl' t ht
      cases (Loop.wakesAt?_of_not_isRunning (hends l' hl')).symm.trans ht
    · have hspawned := (hjoined.again hends).spawnAll
      obtain ⟨hpassed, hlate⟩ := hspawned.pass (Supervisor.workers s.settings) hspan
        (Backend.pendingCount s.shutdown.start.store)
      refine ⟨hpassed.world.trans hjoined.world, (hpassed.shown_eq ?_).trans ?_⟩
      · intro l' hl' t ht
        refine ⟨hlate l' hl' t ht, fun l hl hdue => ?_⟩
        have hrests := hends l hl
        simp [Loop.isRunning, hdue] at hrests
      · apply List.map_congr_left
        intro l hl
        exact Loop.windUp_of_not_isRunning (hends l hl)

/-- A loop, spawned at once, whose worker is executed for two seconds and has more to do then. -/
def busyLoop : Fleet Rehearsal :=
  ((Fleet.create { origin := ⟨0⟩ } [{ name := "poller", interval := .ofSeconds 10 }]
      { script := [⟨.ofSeconds 2, .ok true⟩, ⟨.ofSeconds 2, .ok true⟩] }).course
    Rehearsal.workers (·.script.length) [(0, .spawn)]).passTo
    Rehearsal.workers (·.script.length) (.ofSeconds 1)

/-- The loop is asked to end during its first execution and woken afterwards: that execution is
    recorded and no other begins. -/
theorem busy_loop_ends_after_its_execution :
    let g := (busyLoop.cancelAll.course Rehearsal.workers (·.script.length)
      [(.ofMillis 1500, .wake [0])]).pass Rehearsal.workers (.ofSeconds 3) 0
    g.world.log = [(0, .start), (.ofSeconds 2, .stop)] ∧
      g.loops.map (·.status) =
        [{ state := .stopped, createdAt := ⟨0⟩, lastStarted := some ⟨0⟩
           lastFinished := some (.ofSeconds 2), executions := 1, lastError := none }] := by
  intro g
  obtain ⟨⟨hworld, hshown⟩, -⟩ := cancelled_loops_end Rehearsal.workers (·.script.length)
    { origin := ⟨0⟩ } [{ name := "poller", interval := .ofSeconds 10 }]
    { script := [⟨.ofSeconds 2, .ok true⟩, ⟨.ofSeconds 2, .ok true⟩] } [(0, .spawn)]
    [(.ofMillis 1500, .wake [0])] (.ofSeconds 1) (.ofSeconds 3) 0 (by simp) (by decide)
    (Supervisor.create {} { origin := ⟨0⟩ } (Store.empty .single))
  refine ⟨?_, ?_⟩
  · have hlog : busyLoop.world.log = [(0, .start), (.ofSeconds 2, .stop)] := by decide +kernel
    rw [← hlog]
    exact congrArg Rehearsal.log hworld
  · have hstatus := congrArg (List.map Prod.snd) hshown
    rw [List.map_map] at hstatus
    refine Eq.trans hstatus ?_
    decide +kernel

end Courier.Poll
