/-
  Courier/Proofs/Poll/Schedule.lean
  =================================
  **When the executions of a loop begin.**

  A `Plan` is a scripted worker with the instants at which its loop is spawned and
  woken.  From it the turns of the loop follow one by one: `Turn.next` says when the
  next execution begins and which wake-ups are not spent by then.  The main result is
  that a loop goes by its plan (`runs_on_schedule`).  The invariant is `Plan.Stands`;
  it has one stage for each phase of a loop that was spawned.
-/
import Courier.Proofs.Poll.Course
import Courier.Poll.Rehearsal

namespace Courier.Poll

open Courier.Time

/-! ### Turns -/

/-- One execution of a scripted worker in the course of its loop. -/
structure Turn where
  start : Span
  entry : ScriptEntry
  /-- The wake-ups that are not spent when it begins, those to come included. -/
  unspent : List Span

/-- The end of an idle sleep that is not cut short before an instant, given the wake-ups to come;
    the first of them spends itself if it cuts the sleep short. -/
def idleEnd (until_ : Span) : List Span → Span × List Span
  | [] => (until_, [])
  | w :: coming => if w < until_ then (w, coming) else (until_, w :: coming)

namespace Turn

/-- When the execution ends. -/
def stop (t : Turn) : Span := t.start + t.entry.takes

/-- What is logged of the execution. -/
def marks (t : Turn) : List (Span × Mark) := [(t.start, .start), (t.stop, .stop)]

/-- When the next execution begins, and the wake-ups that are not spent by then.  Those that came
    before an idle sleep count as one and spend themselves at its beginning. -/
def next (s : Settings) (t : Turn) : Span × List Span :=
  match t.entry.result with
  | .ok true => (t.stop, t.unspent)
  | .error _ => (t.stop + s.cooldown, t.unspent)
  | .ok false =>
    if s.wakeable then
      if t.unspent.any (· < t.stop) then (t.stop, t.unspent.filter (t.stop ≤ ·))
      else idleEnd (t.stop + s.interval) t.unspent
    else (t.stop + s.interval, t.unspent)

end Turn

/-- A scripted worker, the habits of its loop, and when that is spawned and woken. -/
structure Plan where
  settings : Settings
  script : List ScriptEntry
  start : Span
  /-- The wake-ups before the loop is spawned. -/
  before : List Span
  /-- The wake-ups afterwards. -/
  after : List Span

namespace Plan

/-- The execution of a number, counted from zero. -/
def turn (p : Plan) : Nat → Turn
  | 0 => ⟨p.start, p.script.headD Rehearsal.idleEntry, p.before ++ p.after⟩
  | n + 1 =>
    let (start, unspent) := (p.turn n).next p.settings
    ⟨start, (p.script.drop (n + 1)).headD Rehearsal.idleEntry, unspent⟩

/-- What is done to the loop, in the order of time. -/
def calls (p : Plan) : List (Span × Call) :=
  p.before.map (·, .wake [0]) ++ (p.start, .spawn) :: p.after.map (·, .wake [0])

/-- Sleeps take time and are not varied, executions do not take less than none, and no two calls
    are made at the same instant. -/
structure Sound (p : Plan) : Prop where
  interval : 0 < p.settings.interval
  short : p.settings.interval ≤ jitterThreshold
  cooldown : 0 < p.settings.cooldown
  takes : ∀ entry ∈ p.script, 0 ≤ entry.takes
  order : (p.before ++ p.start :: p.after).Pairwise (· < ·)

variable {p : Plan} {n : Nat}

theorem entry_turn (p : Plan) (n : Nat) :
    (p.turn n).entry = (p.script.drop n).headD Rehearsal.idleEntry := by
  cases n with
  | zero => rfl
  | succ n => rfl

theorem start_turn_succ (p : Plan) (n : Nat) :
    (p.turn (n + 1)).start = ((p.turn n).next p.settings).1 := rfl

theorem unspent_turn_succ (p : Plan) (n : Nat) :
    (p.turn (n + 1)).unspent = ((p.turn n).next p.settings).2 := rfl

theorem le_idleEnd {until_ bound : Span} {coming : List Span} (h : bound ≤ until_)
    (hcoming : ∀ w ∈ coming, bound ≤ w) : bound ≤ (idleEnd until_ coming).1 := by
  cases coming with
  | nil => exact h
  | cons w rest =>
    simp only [idleEnd]
    split
    · exact hcoming w List.mem_cons_self
    · exact h

theorem idleEnd_of_le {until_ : Span} {coming : List Span} (h : ∀ w ∈ coming, until_ ≤ w) :
    idleEnd until_ coming = (until_, coming) := by
  cases coming with
  | nil => rfl
  | cons w rest => exact if_neg (Int.not_lt.2 (h w List.mem_cons_self))

theorem Sound.takes_turn (hp : p.Sound) (n : Nat) : 0 ≤ (p.turn n).entry.takes := by
  rw [entry_turn]
  cases hrest : p.script.drop n with
  | nil => exact Int.le_refl _
  | cons entry rest =>
    apply hp.takes entry
    apply List.mem_of_mem_drop (i := n)
    simp [hrest]

theorem Sound.stop_le_start (hp : p.Sound) (n : Nat) :
    (p.turn n).stop ≤ (p.turn (n + 1)).start := by
  have hinterval := Span.le_add (p.turn n).stop (Int.le_of_lt hp.interval)
  have hcooldown := Span.le_add (p.turn n).stop (Int.le_of_lt hp.cooldown)
  rw [start_turn_succ]
  unfold Turn.next
  split
  · exact Int.le_refl _
  · exact hcooldown
  · split
    · split
      · exact Int.le_refl _
      · rename_i hnone
        apply le_idleEnd hinterval
        intro w hw
        apply Int.not_lt.1
        intro hless
        exact hnone (List.any_eq_true.2 ⟨w, hw, decide_eq_true hless⟩)
    · exact hinterval

theorem Sound.start_le_stop (hp : p.Sound) (n : Nat) : (p.turn n).start ≤ (p.turn n).stop :=
  Span.le_add _ (hp.takes_turn n)

theorem Sound.start_mono (hp : p.Sound) {m n : Nat} (h : m ≤ n) :
    (p.turn m).start ≤ (p.turn n).start := by
  induction h with
  | refl => exact Int.le_refl _
  | step _ ih =>
    exact Int.le_trans ih (Int.le_trans (hp.start_le_stop _) (hp.stop_le_start _))

/-! ### Stages -/

/-- The wake-ups that are not spent, as a loop knows of them: those before its next event are kept
    as one, the others are still to come. -/
def Unspent (s : Settings) (banked : Bool) (bound : Span) (unspent coming : List Span) : Prop :=
  ∃ past, unspent = past ++ coming ∧ (∀ w ∈ past, w < bound) ∧
    (s.wakeable = true → (banked = true ↔ past ≠ []))

theorem Unspent.mono {s : Settings} {banked : Bool} {x y : Span} {unspent coming : List Span}
    (h : Unspent s banked x unspent coming) (hle : x ≤ y) : Unspent s banked y unspent coming := by
  obtain ⟨past, hunspent, hpast, hbanked⟩ := h
  exact ⟨past, hunspent, fun w hw => Int.lt_of_lt_of_le (hpast w hw) hle, hbanked⟩

/-- A loop that was spawned, at an uptime, when the executions up to a number have begun.  `coming`
    are the wake-ups it does not know of yet. -/
inductive Stage (p : Plan) (coming : List Span) (uptime : Span) (l : Loop) : Nat → Prop
  /-- It is about to execute its worker. -/
  | due {n : Nat} (hphase : l.phase = .due uptime) (hstart : (p.turn n).start = uptime)
      (hunspent : Unspent p.settings l.wakeBanked uptime (p.turn n).unspent coming) :
      Stage p coming uptime l n
  /-- An execution is in flight. -/
  | executing {n : Nat} {until_ : Span} {offset : Int}
      (hphase : l.phase = .executing until_ (p.turn n).entry.result offset)
      (hstop : (p.turn n).stop = until_) (hlater : uptime ≤ until_)
      (hunspent : Unspent p.settings l.wakeBanked until_ (p.turn n).unspent coming) :
      Stage p coming uptime l (n + 1)
  /-- It sleeps, whatever happens. -/
  | resting {n : Nat} {until_ : Span} (hphase : l.phase = .sleeping until_ false)
      (hstart : (p.turn n).start = until_) (hlater : uptime ≤ until_)
      (hunspent : Unspent p.settings l.wakeBanked until_ (p.turn n).unspent coming) :
      Stage p coming uptime l n
  /-- It sleeps unless it is woken. -/
  | idling {n : Nat} {until_ : Span} (hphase : l.phase = .sleeping until_ true)
      (hwakeable : p.settings.wakeable = true)
      (hnext : (p.turn n).next p.settings = idleEnd until_ coming) (hlater : uptime ≤ until_)
      (hbanked : l.wakeBanked = false) :
      Stage p coming uptime l (n + 1)

theorem next_of_wakeable {coming : List Span} {banked : Bool} {stop : Span}
    (hwakeable : p.settings.wakeable = true) (hresult : (p.turn n).entry.result = .ok false)
    (hstop : (p.turn n).stop = stop) (hcoming : ∀ w ∈ coming, stop ≤ w)
    (hunspent : Unspent p.settings banked stop (p.turn n).unspent coming) :
    (p.turn n).next p.settings =
      if banked then (stop, coming) else idleEnd (stop + p.settings.interval) coming := by
  obtain ⟨past, heq, hpast, hbanked⟩ := hunspent
  have hlater : ∀ w ∈ coming, ¬ w < stop := fun w hw => Int.not_lt.2 (hcoming w hw)
  have hcome : coming.any (· < stop) = false := by
    rw [List.any_eq_false]
    intro w hw
    simpa using hlater w hw
  unfold Turn.next
  rw [hresult, hstop, heq]
  simp only [hwakeable, if_true, List.any_append, hcome, Bool.or_false]
  cases banked with
  | false =>
    have hnone : past = [] := by simpa using (hbanked hwakeable)
    simp [hnone]
  | true =>
    have hsome : past ≠ [] := (hbanked hwakeable).1 rfl
    obtain ⟨w, hw⟩ := List.exists_mem_of_ne_nil past hsome
    have hany : past.any (· < stop) = true :=
      List.any_eq_true.2 ⟨w, hw, decide_eq_true (hpast w hw)⟩
    have hspent : past.filter (stop ≤ ·) = [] := by
      rw [List.filter_eq_nil_iff]
      intro w hw
      rw [decide_eq_true_iff]
      exact Int.not_le.2 (hpast w hw)
    have hkept : coming.filter (stop ≤ ·) = coming := by
      rw [List.filter_eq_self]
      intro w hw
      simpa using hcoming w hw
    simp [hany, List.filter_append, hspent, hkept]

section

variable {coming : List Span} {clock : Clock} {l : Loop}

theorem Stage.of_idle (hp : p.Sound) (hresult : (p.turn n).entry.result = .ok false)
    (hstop : (p.turn n).stop = clock.uptime) (hsettings : l.settings = p.settings)
    (hcancelled : l.cancelled = false) (hcoming : ∀ w ∈ coming, clock.uptime ≤ w)
    (hunspent : Unspent p.settings l.wakeBanked clock.uptime (p.turn n).unspent coming)
    (offset : Int) :
    p.Stage coming clock.uptime (l.endExecution clock (.ok false) offset) (n + 1) := by
  have hinterval : jittered p.settings.interval offset = p.settings.interval := if_pos hp.short
  have hnext := start_turn_succ p n
  have hleft := unspent_turn_succ p n
  have hlater := Span.le_add clock.uptime (Int.le_of_lt hp.interval)
  cases hwakeable : p.settings.wakeable with
  | false =>
    simp only [Turn.next, hresult, hstop, hwakeable, Bool.false_eq_true, if_false] at hnext hleft
    apply Stage.resting _ hnext hlater
    · rw [hleft]
      simpa [Loop.endExecution, Loop.sleep, hcancelled, hsettings, hwakeable] using
        hunspent.mono hlater
    · simp [Loop.endExecution, Loop.sleep, hcancelled, hsettings, hwakeable, hinterval]
  | true =>
    have hwake := next_of_wakeable hwakeable hresult hstop hcoming hunspent
    cases hbanked : l.wakeBanked with
    | true =>
      rw [hbanked, if_pos rfl] at hwake
      rw [hwake] at hnext hleft
      apply Stage.due _ hnext
      · refine ⟨[], hleft, by simp, ?_⟩
        simp [Loop.endExecution, Loop.sleep, hcancelled, hsettings, hwakeable, hbanked]
      · simp [Loop.endExecution, Loop.sleep, hcancelled, hsettings, hwakeable, hbanked]
    | false =>
      rw [hbanked, if_neg (by simp)] at hwake
      apply Stage.idling _ hwakeable hwake hlater
      · simp [Loop.endExecution, Loop.sleep, hcancelled, hbanked]
      · simp [Loop.endExecution, Loop.sleep, hcancelled, hsettings, hwakeable, hbanked, hinterval]

/-- At the end of an execution the loop goes on as planned. -/
theorem Stage.of_endExecution (hp : p.Sound) (hstop : (p.turn n).stop = clock.uptime)
    (hsettings : l.settings = p.settings) (hcancelled : l.cancelled = false)
    (hcoming : ∀ w ∈ coming, clock.uptime ≤ w)
    (hunspent : Unspent p.settings l.wakeBanked clock.uptime (p.turn n).unspent coming)
    (offset : Int) :
    p.Stage coming clock.uptime (l.endExecution clock (p.turn n).entry.result offset) (n + 1) := by
  have hnext := start_turn_succ p n
  have hleft := unspent_turn_succ p n
  cases hresult : (p.turn n).entry.result with
  | error e =>
    have hlater := Span.le_add clock.uptime (Int.le_of_lt hp.cooldown)
    simp only [Turn.next, hresult, hstop] at hnext hleft
    apply Stage.resting _ hnext hlater
    · rw [hleft]
      simpa [Loop.endExecution, Loop.sleep, hcancelled] using hunspent.mono hlater
    · simp [Loop.endExecution, Loop.sleep, hcancelled, hsettings]
  | ok more =>
    cases more with
    | true =>
      simp only [Turn.next, hresult, hstop] at hnext hleft
      apply Stage.due rfl hnext
      rw [hleft]
      exact hunspent
    | false => exact .of_idle hp hresult hstop hsettings hcancelled hcoming hunspent offset

theorem Stage.of_run (hp : p.Sound) (hstart : (p.turn n).start = clock.uptime)
    (hsettings : l.settings = p.settings) (hcancelled : l.cancelled = false)
    (hcoming : ∀ w ∈ coming, clock.uptime ≤ w)
    (hunspent : Unspent p.settings l.wakeBanked clock.uptime (p.turn n).unspent coming)
    (offset : Int) :
    p.Stage coming clock.uptime
      (l.run clock (p.turn n).entry.takes (p.turn n).entry.result offset) (n + 1) := by
  have htakes := hp.takes_turn n
  have hstop : (p.turn n).stop = clock.uptime + (p.turn n).entry.takes := by
    rw [Turn.stop, hstart]
  unfold Loop.run
  dsimp only
  split
  · apply Stage.executing rfl hstop (Span.le_add _ htakes)
    exact hunspent.mono (Span.le_add _ htakes)
  · rename_i hnone
    have hlength := Span.le_antisymm (Int.not_lt.1 hnone) htakes
    rw [hlength, Span.add_zero] at hstop
    exact Stage.of_endExecution (l := l.beginExecution clock _ _ offset) hp hstop hsettings
      hcancelled hcoming hunspent offset

theorem Stage.le_wakesAt {uptime t : Span} (h : p.Stage coming uptime l n)
    (ht : l.wakesAt? = some t) : uptime ≤ t := by
  cases h with
  | due hphase =>
    rw [Loop.wakesAt?, hphase] at ht
    cases ht
    exact Int.le_refl _
  | executing hphase hstop hlater =>
    rw [Loop.wakesAt?, hphase] at ht
    cases ht
    exact hlater
  | resting hphase hstart hlater =>
    rw [Loop.wakesAt?, hphase] at ht
    cases ht
    exact hlater
  | idling hphase hwakeable hnext hlater =>
    rw [Loop.wakesAt?, hphase] at ht
    cases ht
    exact hlater

theorem Stage.start_of_due {uptime t : Span} (h : p.Stage coming uptime l n)
    (hphase : l.phase = .due t) : t = uptime ∧ (p.turn n).start = uptime ∧
      Unspent p.settings l.wakeBanked uptime (p.turn n).unspent coming := by
  cases h with
  | due hdue hstart hunspent =>
    cases hphase.symm.trans hdue
    exact ⟨rfl, hstart, hunspent⟩
  | executing hrun => cases hphase.symm.trans hrun
  | resting hsleep => cases hphase.symm.trans hsleep
  | idling hsleep => cases hphase.symm.trans hsleep

theorem Stage.stop_of_executing {uptime until_ : Span} {result : Except Error Bool} {offset : Int}
    (h : p.Stage coming uptime l n) (hphase : l.phase = .executing until_ result offset) :
    ∃ m, n = m + 1 ∧ result = (p.turn m).entry.result ∧ (p.turn m).stop = until_ ∧
      Unspent p.settings l.wakeBanked until_ (p.turn m).unspent coming := by
  cases h with
  | due hdue => cases hphase.symm.trans hdue
  | @executing m _ _ hrun hstop hlater hunspent =>
    cases hphase.symm.trans hrun
    exact ⟨m, rfl, rfl, hstop, hunspent⟩
  | resting hsleep => cases hphase.symm.trans hsleep
  | idling hsleep => cases hphase.symm.trans hsleep

theorem Stage.of_rise {uptime until_ : Span} {wakeable : Bool}
    (hcoming : ∀ w ∈ coming, until_ ≤ w) (h : p.Stage coming uptime l n)
    (hphase : l.phase = .sleeping until_ wakeable) :
    p.Stage coming until_ (l.rise until_) n := by
  cases h with
  | due hdue => cases hphase.symm.trans hdue
  | executing hrun => cases hphase.symm.trans hrun
  | resting hsleep hstart hlater hunspent =>
    cases hphase.symm.trans hsleep
    exact .due rfl hstart hunspent
  | idling hsleep hwakeable hnext hlater hbanked =>
    cases hphase.symm.trans hsleep
    rw [idleEnd_of_le hcoming] at hnext
    have hstart := (start_turn_succ p _).trans (congrArg Prod.fst hnext)
    have hleft := (unspent_turn_succ p _).trans (congrArg Prod.snd hnext)
    refine .due rfl hstart ⟨[], hleft, by simp, fun _ => ?_⟩
    simp [Loop.rise, hbanked]

theorem Unspent.wake {s : Settings} {banked : Bool} {bound w : Span} {unspent coming : List Span}
    (h : Unspent s banked bound unspent (w :: coming)) (hless : w < bound) :
    Unspent s (banked || s.wakeable) bound unspent coming := by
  obtain ⟨past, rfl, hpast, -⟩ := h
  refine ⟨past ++ [w], by simp, ?_, ?_⟩
  · intro x hx
    rcases List.mem_append.1 hx with hx | hx
    · exact hpast x hx
    · cases List.mem_singleton.1 hx
      exact hless
  · intro hwakeable
    simp [hwakeable]

/-- A wake-up has the effect that is planned. -/
theorem Stage.of_wake {w : Span} (h : p.Stage (w :: coming) w l n)
    (hlate : ∀ t, l.wakesAt? = some t → w < t) (hsettings : l.settings = p.settings) :
    p.Stage coming w (l.wake w) n := by
  cases h with
  | due hphase hstart hunspent =>
    have hless := hlate w (by simp [Loop.wakesAt?, hphase])
    exact absurd hless (Int.lt_irrefl w.nanos)
  | @executing n until_ offset hphase hstop hlater hunspent =>
    have hwoken := Loop.wake_of_busy l w (by simp [hphase])
    have hless := hlate until_ (by simp [Loop.wakesAt?, hphase])
    rw [hwoken]
    refine .executing hphase hstop hlater ?_
    rw [hsettings]
    exact hunspent.wake hless
  | @resting n until_ hphase hstart hlater hunspent =>
    have hwoken := Loop.wake_of_busy l w (by simp [hphase])
    have hless := hlate until_ (by simp [Loop.wakesAt?, hphase])
    rw [hwoken]
    refine .resting hphase hstart hlater ?_
    rw [hsettings]
    exact hunspent.wake hless
  | @idling n until_ hphase hwakeable hnext hlater hbanked =>
    have hless := hlate until_ (by simp [Loop.wakesAt?, hphase])
    rw [idleEnd, if_pos hless] at hnext
    have hstart := (start_turn_succ p n).trans (congrArg Prod.fst hnext)
    have hleft := (unspent_turn_succ p n).trans (congrArg Prod.snd hnext)
    have hwoken : l.wake w = { l with phase := .due w } := by
      simp [Loop.wake, hsettings, hwakeable, hphase]
    rw [hwoken]
    exact .due rfl hstart ⟨[], hleft, by simp, fun _ => by simp [hbanked]⟩

end

end Plan

/-! ### How many events there can be -/

/-- How many sleeps of at least a length fit between two instants. -/
def sleeps (grain : Int) (deadline uptime : Span) : Nat := ((deadline - uptime).nanos / grain).toNat

section

variable {grain : Int} {deadline x y : Span}

theorem sleeps_anti (hgrain : 0 < grain) (h : x ≤ y) :
    sleeps grain deadline y ≤ sleeps grain deadline x := by
  apply Int.toNat_le_toNat
  apply Int.ediv_le_ediv hgrain
  simp only [Span.le_iff, Span.nanos_sub] at h ⊢
  omega

theorem sleeps_lt (hgrain : 0 < grain) (h : x.nanos + grain ≤ y.nanos) (hy : y ≤ deadline) :
    sleeps grain deadline y < sleeps grain deadline x := by
  have hfits : 0 ≤ (deadline - y).nanos / grain := by
    apply Int.ediv_nonneg _ (Int.le_of_lt hgrain)
    simp only [Span.le_iff, Span.nanos_sub] at hy ⊢
    omega
  have hmore : (deadline - y).nanos / grain + 1 ≤ (deadline - x).nanos / grain := by
    rw [Int.le_ediv_iff_mul_le hgrain, Int.add_mul, Int.one_mul]
    have hfit := Int.ediv_mul_le (deadline - y).nanos (Int.ne_of_gt hgrain)
    simp only [Span.nanos_sub] at hfit ⊢
    omega
  unfold sleeps
  omega

end

namespace Loop

/-- A bound on the events of a loop up to a deadline if a number of executions are scripted.  An
    execution is two events at most, and each sleep is one more that an execution follows. -/
def eventsUpTo (grain : Int) (deadline : Span) (scripted : Nat) (l : Loop) : Nat :=
  match l.phase with
  | .unstarted | .ended => 0
  | .due t => 2 * scripted + 2 * l.wakeBanked.toNat + 3 * sleeps grain deadline t + 2
  | .executing t _ _ | .sleeping t _ =>
    if deadline < t then 0
    else 2 * scripted + 2 * l.wakeBanked.toNat + 3 * sleeps grain deadline t + 3

variable {grain : Int} {l : Loop} (clock : Clock) (deadline : Span) (scripted : Nat)

theorem eventsUpTo_le {x : Span} (hgrain : 0 < grain)
    (hlater : ∀ t, l.wakesAt? = some t → x ≤ t) :
    l.eventsUpTo grain deadline scripted ≤ 2 * scripted + 3 * sleeps grain deadline x + 5 := by
  have hbanked := l.wakeBanked.toNat_le
  have hfewer (t : Span) (ht : l.wakesAt? = some t) :
      sleeps grain deadline t ≤ sleeps grain deadline x := sleeps_anti hgrain (hlater t ht)
  unfold eventsUpTo
  cases hphase : l.phase with
  | unstarted => exact Nat.zero_le _
  | ended => exact Nat.zero_le _
  | due t =>
    have ht := hfewer t (by simp [wakesAt?, hphase])
    dsimp only
    omega
  | executing t result offset =>
    have ht := hfewer t (by simp [wakesAt?, hphase])
    dsimp only
    split <;> omega
  | sleeping t wakeable =>
    have ht := hfewer t (by simp [wakesAt?, hphase])
    dsimp only
    split <;> omega

theorem eventsUpTo_sleep {uptime span : Span} (hgrain : 0 < grain) (hspan : grain ≤ span.nanos)
    (hcancelled : l.cancelled = false) (state : LoopState) (wakeable : Bool) :
    (l.sleep uptime span state wakeable).eventsUpTo grain deadline scripted ≤
      2 * scripted + 2 * l.wakeBanked.toNat + 3 * sleeps grain deadline uptime := by
  unfold sleep
  simp only [hcancelled, Bool.false_eq_true, if_false]
  split
  · rename_i hwoken
    have hbanked : l.wakeBanked = true := (Bool.and_eq_true_iff.1 hwoken).2
    simp only [eventsUpTo, hbanked, Bool.toNat_false, Bool.toNat_true]
    omega
  · simp only [eventsUpTo]
    split
    · exact Nat.zero_le _
    · rename_i hdue
      have hless : sleeps grain deadline (uptime + span) < sleeps grain deadline uptime := by
        apply sleeps_lt hgrain
        · simpa using hspan
        · exact Int.not_lt.1 hdue
      omega

/-- The lengths of a loop's sleeps are at least a number of nanoseconds and not varied. -/
structure Rests (grain : Int) (s : Settings) : Prop where
  pos : 0 < grain
  interval : grain ≤ s.interval.nanos
  cooldown : grain ≤ s.cooldown.nanos
  short : s.interval ≤ jitterThreshold

theorem eventsUpTo_idle (hrests : Rests grain l.settings) (hcancelled : l.cancelled = false)
    (offset : Int) :
    (l.endExecution clock (.ok false) offset).eventsUpTo grain deadline scripted ≤
      2 * scripted + 2 * l.wakeBanked.toNat + 3 * sleeps grain deadline clock.uptime := by
  rw [endExecution_idle, jittered, if_pos hrests.short]
  apply eventsUpTo_sleep _ _ hrests.pos hrests.interval
  exact hcancelled

theorem eventsUpTo_endExecution (hrests : Rests grain l.settings) (hcancelled : l.cancelled = false)
    (result : Except Error Bool) (offset : Int) :
    (l.endExecution clock result offset).eventsUpTo grain deadline scripted ≤
      2 * scripted + 2 * l.wakeBanked.toNat + 3 * sleeps grain deadline clock.uptime + 2 := by
  cases result with
  | error e =>
    rw [endExecution_error]
    apply Nat.le_add_right_of_le
    apply eventsUpTo_sleep _ _ hrests.pos hrests.cooldown
    exact hcancelled
  | ok more =>
    cases more with
    | true => exact Nat.le_refl _
    | false => exact Nat.le_add_right_of_le (eventsUpTo_idle _ _ _ hrests hcancelled offset)

theorem eventsUpTo_run (hrests : Rests grain l.settings) (hcancelled : l.cancelled = false)
    (takes : Span) (result : Except Error Bool) (offset : Int) :
    (l.run clock takes result offset).eventsUpTo grain deadline scripted ≤
      2 * scripted + 2 * l.wakeBanked.toNat + 3 * sleeps grain deadline clock.uptime + 3 := by
  unfold run
  dsimp only
  split
  · rename_i htakes
    simp only [beginExecution, eventsUpTo]
    split
    · exact Nat.zero_le _
    · have hfewer : sleeps grain deadline (clock.uptime + takes) ≤
          sleeps grain deadline clock.uptime :=
        sleeps_anti hrests.pos (Span.le_add _ (Int.le_of_lt htakes))
      omega
  · apply Nat.le_succ_of_le
    exact eventsUpTo_endExecution (l := l.beginExecution clock takes result offset) _ _ _ hrests
      hcancelled result offset

/-- An execution that begins uses up an entry of the script, or the loop falls asleep. -/
theorem eventsUpTo_run_lt (hrests : Rests grain l.settings) (hcancelled : l.cancelled = false)
    (script : List ScriptEntry) (offset : Int) :
    (l.run clock (script.headD Rehearsal.idleEntry).takes
        (script.headD Rehearsal.idleEntry).result offset).eventsUpTo grain deadline
          script.tail.length <
      2 * script.length + 2 * l.wakeBanked.toNat + 3 * sleeps grain deadline clock.uptime + 2 := by
  cases script with
  | nil =>
    have hidle : (l.run clock 0 (.ok false) offset).eventsUpTo grain deadline 0 ≤
        2 * 0 + 2 * l.wakeBanked.toNat + 3 * sleeps grain deadline clock.uptime :=
      eventsUpTo_idle (l := l.beginExecution clock 0 (.ok false) offset) _ _ _ hrests hcancelled
        offset
    simp only [List.headD_nil, Rehearsal.idleEntry, List.tail_nil, List.length_nil]
    omega
  | cons entry rest =>
    have hrun := eventsUpTo_run clock deadline rest.length hrests hcancelled entry.takes
      entry.result offset
    simp only [List.headD_cons, List.tail_cons, List.length_cons]
    omega

end Loop

namespace Plan

/-! ### The course of a plan -/

/-- A worker that has been executed a number of times, as planned. -/
structure Played (p : Plan) (n : Nat) (world : Rehearsal) : Prop where
  script : world.script = p.script.drop n
  log : world.log = (List.range n).flatMap fun k => (p.turn k).marks

/-- A fleet whose only loop has gone by a plan; the executions up to a number have begun. -/
structure Stands (p : Plan) (coming : List Span) (n : Nat) (f : Fleet Rehearsal) : Prop where
  loop : ∃ l, f.loops = [l] ∧ l.settings = p.settings ∧ l.cancelled = false ∧
    p.Stage coming f.clock.uptime l n
  played : p.Played n f.world
  begun : ∀ k < n, (p.turn k).start ≤ f.clock.uptime

/-- A bound on the events up to a deadline. -/
def eventsUpTo (grain : Int) (deadline : Span) (f : Fleet Rehearsal) : Nat :=
  f.loops.foldr (·.eventsUpTo grain deadline f.world.script.length + ·) 0

variable {p : Plan} {coming : List Span} {n : Nat} {f g : Fleet Rehearsal} {deadline : Span}
  {grain : Int}

theorem Sound.rests (hp : p.Sound) {l : Loop} (hloops : f.loops = [l])
    (hsettings : l.settings = p.settings) : Loop.Rests f.grain p.settings := by
  have hinterval : 0 < p.settings.interval.nanos := hp.interval
  have hcooldown : 0 < p.settings.cooldown.nanos := hp.cooldown
  have hgrain : f.grain =
      min (min 1000000 p.settings.interval.nanos) p.settings.cooldown.nanos := by
    simp [Fleet.grain, hloops, hsettings, hinterval, hcooldown]
  rw [hgrain]
  exact ⟨by omega, by omega, by omega, hp.short⟩

theorem Played.next {world : Rehearsal} {uptime : Span} (h : p.Played n world)
    (hstart : (p.turn n).start = uptime) :
    p.Played (n + 1)
      { script := world.script.tail
        log := world.log ++ [(uptime, .start), (uptime + (p.turn n).entry.takes, .stop)] } where
  script := by rw [h.script, List.tail_drop]
  log := by
    rw [h.log, List.range_succ, List.flatMap_append]
    simp [Turn.marks, Turn.stop, hstart]

section

variable {clock : Clock} {l : Loop} {world : Rehearsal}

theorem Stands.begin {t : Span} (h : p.Stands coming n ⟨clock, [l], world⟩) (hp : p.Sound)
    (hrests : Loop.Rests grain p.settings) (hphase : l.phase = .due t)
    (hcoming : ∀ w ∈ coming, t ≤ w) :
    let f : Fleet Rehearsal := ⟨clock.reach t, [l], world⟩
    p.Stands coming (n + 1) (f.goOn Rehearsal.workers 0 l) ∧
      eventsUpTo grain deadline (f.goOn Rehearsal.workers 0 l) <
        eventsUpTo grain deadline ⟨clock, [l], world⟩ := by
  obtain ⟨⟨l', hl', hsettings, hcancelled, hstage⟩, hplayed, hbegun⟩ := h
  cases List.singleton_inj.1 hl'
  obtain ⟨rfl, hstart, hunspent⟩ := hstage.start_of_due hphase
  dsimp only at *
  have hentry : world.script.headD Rehearsal.idleEntry = (p.turn n).entry := by
    rw [hplayed.script, entry_turn]
  have hgoOn : Fleet.goOn Rehearsal.workers ⟨clock, [l], world⟩ 0 l =
      ⟨clock, [l.run clock (p.turn n).entry.takes (p.turn n).entry.result 0],
        { script := world.script.tail
          log := world.log ++ [(clock.uptime, .start),
            (clock.uptime + (p.turn n).entry.takes, .stop)] }⟩ := by
    rw [← hentry]
    simp [Fleet.goOn, hphase, hcancelled, Rehearsal.workers, Fleet.wakeAll, Fleet.updateLoop]
  rw [Clock.reach_of_le (Int.le_refl _), hgoOn]
  refine ⟨⟨⟨_, rfl, ?_, ?_, ?_⟩, hplayed.next hstart, ?_⟩, ?_⟩
  · simpa using hsettings
  · simpa using hcancelled
  · exact .of_run hp hstart hsettings hcancelled hcoming hunspent 0
  · intro k hk
    rcases Nat.lt_succ_iff_lt_or_eq.1 hk with hk | rfl
    · exact hbegun k hk
    · exact Span.le_of_eq hstart
  · rw [← hsettings] at hrests
    have hless := Loop.eventsUpTo_run_lt clock deadline hrests hcancelled world.script 0
    rw [hentry] at hless
    simpa [eventsUpTo, Loop.eventsUpTo, hphase] using hless

theorem Stands.finish {until_ : Span} {result : Except Error Bool} {offset : Int}
    (h : p.Stands coming n ⟨clock, [l], world⟩) (hp : p.Sound)
    (hrests : Loop.Rests grain p.settings) (hphase : l.phase = .executing until_ result offset)
    (hdue : until_ ≤ deadline) (hcoming : ∀ w ∈ coming, until_ ≤ w) :
    let f : Fleet Rehearsal := ⟨clock.reach until_, [l], world⟩
    p.Stands coming n (f.goOn Rehearsal.workers 0 l) ∧
      eventsUpTo grain deadline (f.goOn Rehearsal.workers 0 l) <
        eventsUpTo grain deadline ⟨clock, [l], world⟩ := by
  obtain ⟨⟨l', hl', hsettings, hcancelled, hstage⟩, hplayed, hbegun⟩ := h
  cases List.singleton_inj.1 hl'
  have hnow : (clock.reach until_).uptime = until_ :=
    Clock.uptime_reach_of_le (hstage.le_wakesAt (by simp [Loop.wakesAt?, hphase]))
  obtain ⟨m, rfl, rfl, hstop, hunspent⟩ := hstage.stop_of_executing hphase
  have hgoOn : Fleet.goOn Rehearsal.workers ⟨clock.reach until_, [l], world⟩ 0 l =
      ⟨clock.reach until_,
        [l.endExecution (clock.reach until_) (p.turn m).entry.result offset], world⟩ := by
    simp [Fleet.goOn, hphase, Fleet.updateLoop]
  dsimp only
  rw [hgoOn]
  refine ⟨⟨⟨_, rfl, ?_, ?_, ?_⟩, hplayed, ?_⟩, ?_⟩
  · simpa using hsettings
  · simpa using hcancelled
  · rw [← hnow] at hstop hcoming hunspent
    exact .of_endExecution hp hstop hsettings hcancelled hcoming hunspent offset
  · intro k hk
    exact Int.le_trans (hbegun k hk) (Clock.uptime_le_reach clock until_)
  · rw [← hsettings] at hrests
    have hreached : ¬ deadline < until_ := Int.not_lt.2 hdue
    have hfew := Loop.eventsUpTo_endExecution (clock.reach until_) deadline world.script.length
      hrests hcancelled (p.turn m).entry.result offset
    rw [hnow] at hfew
    simp only [eventsUpTo, List.foldr_cons, List.foldr_nil, Nat.add_zero]
    simp only [Loop.eventsUpTo, hphase, if_neg hreached]
    exact Nat.lt_succ_of_le hfew

theorem Stands.rise {until_ : Span} {wakeable : Bool} (h : p.Stands coming n ⟨clock, [l], world⟩)
    (hphase : l.phase = .sleeping until_ wakeable) (hdue : until_ ≤ deadline)
    (hcoming : ∀ w ∈ coming, until_ ≤ w) :
    let f : Fleet Rehearsal := ⟨clock.reach until_, [l], world⟩
    p.Stands coming n (f.goOn Rehearsal.workers 0 l) ∧
      eventsUpTo grain deadline (f.goOn Rehearsal.workers 0 l) <
        eventsUpTo grain deadline ⟨clock, [l], world⟩ := by
  obtain ⟨⟨l', hl', hsettings, hcancelled, hstage⟩, hplayed, hbegun⟩ := h
  cases List.singleton_inj.1 hl'
  have hnow : (clock.reach until_).uptime = until_ :=
    Clock.uptime_reach_of_le (hstage.le_wakesAt (by simp [Loop.wakesAt?, hphase]))
  have hgoOn : Fleet.goOn Rehearsal.workers ⟨clock.reach until_, [l], world⟩ 0 l =
      ⟨clock.reach until_, [l.rise until_], world⟩ := by
    simp [Fleet.goOn, hphase, Fleet.updateLoop, hnow]
  dsimp only
  rw [hgoOn]
  refine ⟨⟨⟨_, rfl, hsettings, hcancelled, ?_⟩, hplayed, ?_⟩, ?_⟩
  · simp only [hnow]
    exact hstage.of_rise hcoming hphase
  · intro k hk
    exact Int.le_trans (hbegun k hk) (Clock.uptime_le_reach clock until_)
  · have hreached : ¬ deadline < until_ := Int.not_lt.2 hdue
    simp [eventsUpTo, Loop.eventsUpTo, Loop.rise, hphase, hreached]

end

/-- An event goes by the plan. -/
theorem Stands.step (h : p.Stands coming n f) (hp : p.Sound) (hrests : Loop.Rests grain p.settings)
    (hcoming : ∀ w ∈ coming, deadline ≤ w)
    (hstep : f.step? Rehearsal.workers deadline = some g) :
    ∃ m, p.Stands coming m g ∧ eventsUpTo grain deadline g < eventsUpTo grain deadline f := by
  obtain ⟨l, hloops, -⟩ := h.loop
  obtain ⟨clock, loops, world⟩ := f
  subst hloops
  obtain ⟨i, l', t, hl', hat, hdue, -, rfl⟩ := Fleet.step?_eq_some hstep
  obtain ⟨rfl, rfl⟩ : i = 0 ∧ l = l' := by
    cases i with
    | zero => exact ⟨rfl, Option.some.inj hl'⟩
    | succ i => cases hl'
  have hlater : ∀ w ∈ coming, t ≤ w := fun w hw => Int.le_trans hdue (hcoming w hw)
  cases hphase : l.phase with
  | unstarted => simp [Loop.wakesAt?, hphase] at hat
  | ended => simp [Loop.wakesAt?, hphase] at hat
  | due u =>
    cases hat.symm.trans (show l.wakesAt? = some u by simp [Loop.wakesAt?, hphase])
    exact ⟨n + 1, h.begin hp hrests hphase hlater⟩
  | executing u result offset =>
    cases hat.symm.trans (show l.wakesAt? = some u by simp [Loop.wakesAt?, hphase])
    exact ⟨n, h.finish hp hrests hphase hdue hlater⟩
  | sleeping u wakeable =>
    cases hat.symm.trans (show l.wakesAt? = some u by simp [Loop.wakesAt?, hphase])
    exact ⟨n, h.rise hphase hdue hlater⟩

theorem Stage.later {x y : Span} {l : Loop} (h : p.Stage coming x l n) (hle : x ≤ y)
    (hlate : ∀ t, l.wakesAt? = some t → y < t) : p.Stage coming y l n := by
  cases h with
  | due hphase =>
    have hless := hlate x (by simp [Loop.wakesAt?, hphase])
    exact absurd hle (Int.not_le.2 hless)
  | @executing n until_ offset hphase hstop hlater hunspent =>
    have hless := hlate until_ (by simp [Loop.wakesAt?, hphase])
    exact .executing hphase hstop (Int.le_of_lt hless) hunspent
  | @resting n until_ hphase hstart hlater hunspent =>
    have hless := hlate until_ (by simp [Loop.wakesAt?, hphase])
    exact .resting hphase hstart (Int.le_of_lt hless) hunspent
  | @idling n until_ hphase hwakeable hnext hlater hbanked =>
    have hless := hlate until_ (by simp [Loop.wakesAt?, hphase])
    exact .idling hphase hwakeable hnext (Int.le_of_lt hless) hbanked

/-- While time passes the loop goes by its plan. -/
theorem Stands.pass (h : p.Stands coming n f) (hp : p.Sound) {span : Span} (hspan : 0 ≤ span)
    (hcoming : ∀ w ∈ coming, f.clock.uptime + span ≤ w) :
    ∃ m, p.Stands coming m (f.pass Rehearsal.workers span f.world.script.length) ∧
      (f.pass Rehearsal.workers span f.world.script.length).Quiet := by
  obtain ⟨l, hloops, hsettings, -, hstage⟩ := h.loop
  have hrests := hp.rests hloops hsettings
  -- The loop goes on by an entry of the script, by the one wake-up that is kept or by a sleep, and
  -- only so many sleeps fit into the span.
  have henough : eventsUpTo f.grain (f.clock.uptime + span) f ≤
      f.eventBound span f.world.script.length := by
    have hfew := l.eventsUpTo_le (f.clock.uptime + span) f.world.script.length hrests.pos
      fun t ht => hstage.le_wakesAt ht
    have hsleeps : sleeps f.grain (f.clock.uptime + span) f.clock.uptime =
        (span.nanos / f.grain).toNat := by
      rw [sleeps]
      congr 2
      simp only [Span.nanos_sub, Span.nanos_add]
      omega
    simp only [eventsUpTo, Fleet.eventBound, hloops, List.foldr_cons, List.foldr_nil,
      List.length_cons, List.length_nil]
    omega
  obtain ⟨g, ⟨m, hstands⟩, hclock, hpass, hquiet⟩ := Fleet.pass_settles Rehearsal.workers
    (P := fun g => ∃ m, p.Stands coming m g) (eventsUpTo f.grain (f.clock.uptime + span))
    (fun g g' hg hstep => by
      obtain ⟨k, hk⟩ := hg
      obtain ⟨m, hm, hless⟩ := hk.step hp hrests hcoming hstep
      exact ⟨⟨m, hm⟩, hless⟩)
    hspan ⟨n, h⟩ henough
  rw [hpass] at hquiet ⊢
  refine ⟨m, ⟨?_, hstands.played, ?_⟩, hquiet⟩
  · obtain ⟨l', hl', hsettings', hcancelled', hstage'⟩ := hstands.loop
    refine ⟨l', hl', hsettings', hcancelled', hstage'.later hclock fun t ht => ?_⟩
    exact hquiet l' (by simp [hl']) t ht
  · intro k hk
    exact Int.le_trans (hstands.begun k hk) hclock

theorem Stands.wake {w : Span} (h : p.Stands (w :: coming) n f) (hnow : f.clock.uptime = w)
    (hquiet : f.Quiet) : p.Stands coming n (f.wakeAll [0]) := by
  obtain ⟨⟨l, hloops, hsettings, hcancelled, hstage⟩, hplayed, hbegun⟩ := h
  obtain ⟨clock, loops, world⟩ := f
  dsimp only at *
  subst hloops hnow
  refine ⟨⟨l.wake clock.uptime, by simp [Fleet.wakeAll, Fleet.updateLoop], ?_, ?_, ?_⟩, ?_, ?_⟩
  · simpa using hsettings
  · simpa using hcancelled
  · rw [Fleet.clock_wakeAll]
    exact hstage.of_wake (hquiet l List.mem_cons_self) hsettings
  · simpa using hplayed
  · simpa using hbegun

theorem Stands.course {after : List Span} (h : p.Stands after n f) (hp : p.Sound)
    (hafter : ∀ w ∈ after, f.clock.uptime < w) (horder : after.Pairwise (· < ·)) :
    ∃ m, p.Stands [] m (f.course Rehearsal.workers (·.script.length)
      (after.map (·, .wake [0]))) := by
  induction after generalizing n f with
  | nil => exact ⟨n, h⟩
  | cons w rest ih =>
    obtain ⟨hrest, horder⟩ := List.pairwise_cons.1 horder
    have hw := hafter w List.mem_cons_self
    obtain ⟨m, hstands, hquiet⟩ := h.pass hp (Span.sub_nonneg hw) (by
      intro x hx
      rw [Span.add_sub_cancel]
      rcases List.mem_cons.1 hx with rfl | hx
      · exact Int.le_refl _
      · exact Int.le_of_lt (hrest x hx))
    have hnow : (f.pass Rehearsal.workers (w - f.clock.uptime) f.world.script.length).clock.uptime =
        w := Span.add_sub_cancel _ w
    have hwoken := hstands.wake hnow hquiet
    rw [List.map_cons, Fleet.course, Fleet.passTo, if_pos hw]
    apply ih hwoken _ horder
    intro x hx
    rw [Fleet.clock_wakeAll, hnow]
    exact hrest x hx

/-- Once nothing more can happen, exactly the executions have begun that are planned by then. -/
theorem Stands.begun_iff (h : p.Stands [] n f) (hp : p.Sound) (hquiet : f.Quiet) (k : Nat) :
    (p.turn k).start ≤ f.clock.uptime ↔ k < n := by
  refine ⟨fun hk => ?_, h.begun k⟩
  have hnext : f.clock.uptime < (p.turn n).start := by
    obtain ⟨l, hloops, -, -, hstage⟩ := h.loop
    have hlate := hquiet l (by simp [hloops])
    cases hstage with
    | due hphase =>
      have hless := hlate f.clock.uptime (by simp [Loop.wakesAt?, hphase])
      exact absurd hless (Int.lt_irrefl _)
    | @executing m until_ offset hphase hstop hlater hunspent =>
      have hless := hlate until_ (by simp [Loop.wakesAt?, hphase])
      rw [← hstop] at hless
      exact Int.lt_of_lt_of_le hless (hp.stop_le_start m)
    | @resting m until_ hphase hstart hlater hunspent =>
      rw [hstart]
      exact hlate until_ (by simp [Loop.wakesAt?, hphase])
    | @idling m until_ hphase hwakeable hnext hlater hbanked =>
      rw [start_turn_succ, hnext]
      exact hlate until_ (by simp [Loop.wakesAt?, hphase])
  -- Later executions begin no earlier than the next one.
  apply Nat.lt_of_not_le
  intro hle
  exact absurd (Int.le_trans (hp.start_mono hle) hk) (Int.not_le.2 hnext)

/-! ### Before the loop is spawned -/

/-- A fleet whose only loop has not been spawned, but woken a number of times. -/
structure Unspawned (p : Plan) (past : List Span) (f : Fleet Rehearsal) : Prop where
  loop : ∃ l, f.loops = [l] ∧ l.settings = p.settings ∧ l.cancelled = false ∧
    l.phase = .unstarted ∧ (p.settings.wakeable = true → (l.wakeBanked = true ↔ past ≠ []))
  played : p.Played 0 f.world
  uptime : f.clock.uptime ≤ p.start

theorem Unspawned.passTo {past : List Span} {uptime : Span} (h : p.Unspawned past f)
    (huptime : uptime ≤ p.start) :
    p.Unspawned past (f.passTo Rehearsal.workers (·.script.length) uptime) := by
  obtain ⟨⟨l, hloops, hsettings, hcancelled, hphase, hbanked⟩, hplayed, hbefore⟩ := h
  rw [Fleet.passTo_of_resting (by simp [hloops, Loop.wakesAt?, hphase])]
  refine ⟨⟨l, hloops, hsettings, hcancelled, hphase, hbanked⟩, hplayed, ?_⟩
  rw [Clock.uptime_reach]
  split
  · exact huptime
  · exact hbefore

theorem Unspawned.wake {past : List Span} (h : p.Unspawned past f) (w : Span) :
    p.Unspawned (past ++ [w]) (f.wakeAll [0]) := by
  obtain ⟨⟨l, hloops, hsettings, hcancelled, hphase, hbanked⟩, hplayed, hbefore⟩ := h
  have hwoken := Loop.wake_of_busy l f.clock.uptime (by simp [hphase])
  refine ⟨⟨l.wake f.clock.uptime, ?_, ?_, ?_, ?_, ?_⟩, ?_, ?_⟩
  · simp [Fleet.wakeAll, Fleet.updateLoop, hloops]
  · simpa using hsettings
  · simpa using hcancelled
  · rw [hwoken]
    exact hphase
  · intro hwakeable
    simp [hwoken, hsettings, hwakeable]
  · simpa using hplayed
  · simpa using hbefore

theorem Unspawned.course {past before : List Span} (h : p.Unspawned past f)
    (hbefore : ∀ w ∈ before, w ≤ p.start) :
    p.Unspawned (past ++ before) (f.course Rehearsal.workers (·.script.length)
      (before.map (·, .wake [0]))) := by
  induction before generalizing past f with
  | nil => simpa [Fleet.course] using h
  | cons w rest ih =>
    rw [List.forall_mem_cons] at hbefore
    rw [List.append_cons]
    exact ih ((h.passTo hbefore.1).wake w) hbefore.2

/-- When the loop is spawned its plan begins. -/
theorem Unspawned.spawn (h : p.Unspawned p.before f) (hp : p.Sound) :
    let g := (f.passTo Rehearsal.workers (·.script.length) p.start).spawnAll
    p.Stands p.after 0 g ∧ g.clock.uptime = p.start := by
  obtain ⟨⟨l, hloops, hsettings, hcancelled, hphase, hbanked⟩, hplayed, hbefore⟩ := h
  have hnow := Clock.uptime_reach_of_le hbefore
  dsimp only
  rw [Fleet.passTo_of_resting (by simp [hloops, Loop.wakesAt?, hphase])]
  refine ⟨⟨⟨l.spawn p.start, ?_, ?_, ?_, ?_⟩, hplayed, by simp⟩, hnow⟩
  · simp [Fleet.spawnAll, Fleet.updateAll, hloops, hnow]
  · simpa [Loop.spawn, hphase] using hsettings
  · simpa [Loop.spawn, hphase] using hcancelled
  · have hspawned : l.spawn p.start = { l with phase := .due p.start } := by
      simp [Loop.spawn, hphase]
    have huptime : ({ f with clock := f.clock.reach p.start }).spawnAll.clock.uptime = p.start :=
      hnow
    rw [huptime, hspawned]
    refine .due rfl rfl ⟨p.before, rfl, fun w hw => ?_, hbanked⟩
    exact (List.pairwise_append.1 hp.order).2.2 w hw p.start List.mem_cons_self

/-- **A loop goes by its plan.**  Of a worker with any script, whose sleeps are positive and not
    varied, exactly those executions have begun that are planned by now, each at its time. -/
theorem runs_on_schedule (p : Plan) (hp : p.Sound) (clock : Clock)
    (hclock : clock.uptime ≤ p.start) (span : Span) (hspan : 0 ≤ span) :
    let f := (Fleet.create clock [p.settings] { script := p.script }).course Rehearsal.workers
      (·.script.length) p.calls
    let g := f.pass Rehearsal.workers span f.world.script.length
    ∃ n, (∀ k, (p.turn k).start ≤ g.clock.uptime ↔ k < n) ∧
      g.world.log = (List.range n).flatMap fun k => (p.turn k).marks := by
  intro f g
  obtain ⟨-, hafter, hbefore⟩ := List.pairwise_append.1 hp.order
  obtain ⟨hlater, horder⟩ := List.pairwise_cons.1 hafter
  have hcreated : p.Unspawned [] (Fleet.create clock [p.settings] { script := p.script }) := by
    refine ⟨⟨Loop.create p.settings clock.now, rfl, rfl, rfl, rfl, ?_⟩, ⟨rfl, rfl⟩, hclock⟩
    simp [Loop.create]
  have hwoken : p.Unspawned p.before _ :=
    hcreated.course fun w hw => Int.le_of_lt (hbefore w hw p.start List.mem_cons_self)
  obtain ⟨hspawned, hnow⟩ := hwoken.spawn hp
  obtain ⟨m, hstands⟩ := hspawned.course hp (by rwa [hnow]) horder
  have hf : p.Stands [] m f := by
    unfold f calls
    rw [Fleet.course_append]
    exact hstands
  obtain ⟨n, hpassed, hquiet⟩ := hf.pass hp hspan (by simp)
  exact ⟨n, hpassed.begun_iff hp hquiet, hpassed.played.log⟩

/-- A plan in which a worker finds nothing to do, fails, finds more to do and then nothing again,
    and is woken before it starts, during the first execution, in the cooldown and while idle. -/
def eventful : Plan where
  settings := { name := "poller", interval := .ofSeconds 10, cooldown := .ofSeconds 60 }
  script := [⟨.ofSeconds 2, .ok false⟩, ⟨.ofSeconds 2, .error (.other "refused")⟩,
    ⟨.ofSeconds 1, .ok true⟩]
  start := .ofSeconds 1
  before := [.ofMillis 500]
  after := [.ofSeconds 2, .ofSeconds 20, .ofSeconds 70]

/-- The first two wake-ups count as one, the third is spent after the cooldown and the last cuts an
    idle sleep short. -/
theorem eventful_runs_on_schedule :
    (((Fleet.create { origin := ⟨0⟩ } [eventful.settings] { script := eventful.script }).course
      Rehearsal.workers (·.script.length) eventful.calls).pass Rehearsal.workers
        (.ofSeconds 5) 0).world.log =
      [(.ofSeconds 1, .start), (.ofSeconds 3, .stop), (.ofSeconds 3, .start), (.ofSeconds 5, .stop),
        (.ofSeconds 65, .start), (.ofSeconds 66, .stop), (.ofSeconds 66, .start),
        (.ofSeconds 66, .stop), (.ofSeconds 66, .start), (.ofSeconds 66, .stop),
        (.ofSeconds 70, .start), (.ofSeconds 70, .stop)] := by
  have hsound : eventful.Sound := ⟨by decide, by decide, by decide, by decide, by decide⟩
  obtain ⟨n, hbegun, hlog⟩ := runs_on_schedule eventful hsound { origin := ⟨0⟩ } (by decide)
    (.ofSeconds 5) (by decide)
  have hmore : 5 < n := (hbegun 5).1 (by decide +kernel)
  have hless : ¬ 6 < n := fun h => absurd ((hbegun 6).2 h) (by decide +kernel)
  obtain rfl : n = 6 := by omega
  exact hlog

end Plan

end Courier.Poll
