/-
  Courier/Proofs/Poll/Course.lean
  ===============================
  **What happens to loops in the course of time.**

  From outside, loops are spawned, woken, asked to end and executed directly; these
  are the `Call`s, and a course is a list of them with the uptimes at which they are
  made.  In between time passes.  What the passing of time keeps is shown event by
  event: `step?_eq_some` says what an event is, `runEvents_induction` that what events
  keep is kept, and `runEvents_settles` that nothing is left to happen if every event
  uses something up of which there was no more than events were allowed for.
-/
import Courier.Poll.Fleet

namespace Courier.Poll

open Courier.Time

/-! ### Calls -/

/-- What is done to loops from outside. -/
inductive Call where
  | spawn
  /-- The loops of some numbers are woken. -/
  | wake (numbers : List Nat)
  | cancel
  /-- The worker of a number is executed directly. -/
  | execute (number : Nat)
deriving DecidableEq, Repr

/-- What going on makes of a loop; `execution` is what its worker does if it is executed. -/
def Loop.goOn (l : Loop) (clock : Clock) (execution : Execution) : Loop :=
  match l.phase with
  | .unstarted | .ended => l
  | .due _ =>
    if l.cancelled then l.stop
    else l.run clock execution.takes execution.result execution.offset
  | .executing _ result offset => l.endExecution clock result offset
  | .sleeping _ _ => l.rise clock.uptime

/-- The last sign of life is no later than an instant if none that is shown is. -/
theorem LoopStatus.reference_le_iff {s : LoopStatus} {t : Instant} :
    s.reference ≤ t ↔ s.createdAt ≤ t ∧ (∀ u, s.lastStarted = some u → u ≤ t) ∧
      ∀ u, s.lastFinished = some u → u ≤ t := by
  unfold reference
  cases s.lastStarted <;> cases s.lastFinished <;> simp [Instant.max_le_iff, and_assoc]

namespace Loop

variable (l : Loop) (clock : Clock) (offset : Int)

theorem endExecution_more :
    l.endExecution clock (.ok true) offset =
      { l with status := l.status.finished clock.now, phase := .due clock.uptime } := rfl

theorem endExecution_idle :
    l.endExecution clock (.ok false) offset =
      ({ l with status := l.status.finished clock.now }).sleep clock.uptime
        (jittered l.settings.interval offset) .sleeping l.settings.wakeable := rfl

theorem endExecution_error (e : Error) :
    l.endExecution clock (.error e) offset =
      ({ l with status := { l.status.finished clock.now with lastError := some e.message } }).sleep
        clock.uptime l.settings.cooldown .coolingDown false := rfl

/-- A wake-up that does not cut a sleep short is kept. -/
theorem wake_of_busy (uptime : Span) (h : ∀ u, l.phase ≠ .sleeping u true) :
    l.wake uptime = { l with wakeBanked := l.wakeBanked || l.settings.wakeable } := by
  unfold wake
  split
  · rename_i hwakeable
    split
    · rename_i hphase
      exact absurd hphase (h _)
    · simp [hwakeable]
  · rename_i hdeaf
    simp [hdeaf]

@[simp] theorem wake_keeps (uptime : Span) :
    (l.wake uptime).settings = l.settings ∧ (l.wake uptime).cancelled = l.cancelled := by
  unfold wake
  split
  · split
    · exact ⟨rfl, rfl⟩
    · exact ⟨rfl, rfl⟩
  · exact ⟨rfl, rfl⟩

@[simp] theorem sleep_keeps (uptime span : Span) (state : LoopState) (wakeable : Bool) :
    (l.sleep uptime span state wakeable).settings = l.settings ∧
      (l.sleep uptime span state wakeable).cancelled = l.cancelled := by
  simp only [sleep]
  split
  · exact ⟨rfl, rfl⟩
  · split
    · exact ⟨rfl, rfl⟩
    · exact ⟨rfl, rfl⟩

@[simp] theorem endExecution_keeps (result : Except Error Bool) :
    (l.endExecution clock result offset).settings = l.settings ∧
      (l.endExecution clock result offset).cancelled = l.cancelled := by
  cases result with
  | error e => simp [endExecution_error]
  | ok more =>
    cases more with
    | true => simp [endExecution_more]
    | false => simp [endExecution_idle]

@[simp] theorem run_keeps (takes : Span) (result : Except Error Bool) :
    (l.run clock takes result offset).settings = l.settings ∧
      (l.run clock takes result offset).cancelled = l.cancelled := by
  simp only [run]
  split
  · exact ⟨rfl, rfl⟩
  · exact endExecution_keeps _ clock offset result

end Loop

namespace Fleet

variable {ω : Type} {workers : Workers ω} {f g : Fleet ω}

/-- The fleet at the end of a direct execution, before that is recorded. -/
def working (workers : Workers ω) (i n : Nat) (f : Fleet ω) : Fleet ω :=
  let (execution, world) := workers i f.clock f.world
  let g := ({ f.updateLoop i (·.directStart f.clock.now) with world }).wakeAll execution.wakes
  if 0 < execution.takes then g.pass workers execution.takes n else g

theorem execute_snd (workers : Workers ω) (i n : Nat) (f : Fleet ω) :
    (f.execute workers i n).2 = (f.working workers i n).updateLoop i
      (·.directFinish (f.working workers i n).clock.now) := rfl

/-- Makes a call.  `pending` bounds how often workers are executed without a sleep in between. -/
def perform (workers : Workers ω) (pending : ω → Nat) (f : Fleet ω) : Call → Fleet ω
  | .spawn => f.spawnAll
  | .wake numbers => f.wakeAll numbers
  | .cancel => f.cancelAll
  | .execute number => (f.execute workers number (pending f.world)).2

/-- Time passes up to an uptime, unless it has been reached. -/
def passTo (workers : Workers ω) (pending : ω → Nat) (uptime : Span) (f : Fleet ω) : Fleet ω :=
  if f.clock.uptime < uptime then f.pass workers (uptime - f.clock.uptime) (pending f.world)
  else f

/-- Calls are made, each at its uptime. -/
def course (workers : Workers ω) (pending : ω → Nat) : List (Span × Call) → Fleet ω → Fleet ω
  | [], f => f
  | (uptime, call) :: calls, f =>
    course workers pending calls ((f.passTo workers pending uptime).perform workers pending call)

theorem course_append (workers : Workers ω) (pending : ω → Nat) (before after : List (Span × Call))
    (f : Fleet ω) :
    f.course workers pending (before ++ after) =
      (f.course workers pending before).course workers pending after := by
  induction before generalizing f with
  | nil => rfl
  | cons entry rest ih => exact ih _

/-- Loops that were just made. -/
def create (clock : Clock) (settings : List Settings) (world : ω) : Fleet ω :=
  { clock, loops := settings.map (.create · clock.now), world }

/-! ### Changes to loops -/

theorem getElem?_updateLoop (f : Fleet ω) (i j : Nat) (change : Loop → Loop) :
    (f.updateLoop i change).loops[j]? =
      f.loops[j]?.map fun l => if i = j then change l else l :=
  List.getElem?_modify change i f.loops j

@[simp] theorem length_updateLoop (f : Fleet ω) (i : Nat) (change : Loop → Loop) :
    (f.updateLoop i change).loops.length = f.loops.length := by
  simp [updateLoop]

theorem wakeAll_cons (f : Fleet ω) (i : Nat) (numbers : List Nat) :
    f.wakeAll (i :: numbers) = (f.updateLoop i (·.wake f.clock.uptime)).wakeAll numbers := rfl

@[simp] theorem clock_wakeAll (f : Fleet ω) (numbers : List Nat) :
    (f.wakeAll numbers).clock = f.clock := by
  induction numbers generalizing f with
  | nil => rfl
  | cons i rest ih =>
    rw [wakeAll_cons, ih]
    rfl

@[simp] theorem world_wakeAll (f : Fleet ω) (numbers : List Nat) :
    (f.wakeAll numbers).world = f.world := by
  induction numbers generalizing f with
  | nil => rfl
  | cons i rest ih =>
    rw [wakeAll_cons, ih]
    rfl

@[simp] theorem length_wakeAll (f : Fleet ω) (numbers : List Nat) :
    (f.wakeAll numbers).loops.length = f.loops.length := by
  induction numbers generalizing f with
  | nil => rfl
  | cons i rest ih =>
    rw [wakeAll_cons, ih]
    simp

/-- Something is true of every loop and its number. -/
def Each (P : Nat → Loop → Prop) (f : Fleet ω) : Prop := ∀ j l, f.loops[j]? = some l → P j l

variable {P Q : Nat → Loop → Prop}

theorem Each.updateLoop (h : f.Each P) (i : Nat) (change : Loop → Loop)
    (hchange : ∀ l, f.loops[i]? = some l → P i (change l)) : (f.updateLoop i change).Each P := by
  intro j l' hl'
  rw [getElem?_updateLoop, Option.map_eq_some_iff] at hl'
  obtain ⟨l, hl, rfl⟩ := hl'
  split
  · rename_i hij
    subst hij
    exact hchange l hl
  · exact h j l hl

theorem Each.updateAll (h : f.Each P) {change : Loop → Loop}
    (hchange : ∀ j l, P j l → Q j (change l)) : (f.updateAll change).Each Q := by
  intro j l' hl'
  simp only [Fleet.updateAll, List.getElem?_map, Option.map_eq_some_iff] at hl'
  obtain ⟨l, hl, rfl⟩ := hl'
  exact hchange j l (h j l hl)

theorem Each.wakeAll (numbers : List Nat) (h : f.Each P)
    (hwake : ∀ j l, P j l → P j (l.wake f.clock.uptime)) : (f.wakeAll numbers).Each P := by
  induction numbers generalizing f with
  | nil => exact h
  | cons i rest ih =>
    rw [wakeAll_cons]
    apply ih
    · exact h.updateLoop i _ fun l hl => hwake i l (h i l hl)
    · exact hwake

/-! ### Loops that go on -/

/-- A loop goes on by itself, whatever its worker would do, or, if it is due, by an execution of its
    worker, which first wakes other loops. -/
theorem goOn_eq (workers : Workers ω) (f : Fleet ω) (i : Nat) (l : Loop) :
    (∃ change, f.goOn workers i l = f.updateLoop i change ∧
      ∀ execution, change l = l.goOn f.clock execution) ∨
    ∃ t execution world, l.phase = .due t ∧ l.cancelled = false ∧
      workers i f.clock f.world = (execution, world) ∧
      f.goOn workers i l = (({ f with world }).wakeAll execution.wakes).updateLoop i
        (·.run f.clock execution.takes execution.result execution.offset) := by
  cases hphase : l.phase with
  | unstarted =>
    refine Or.inl ⟨id, ?_, fun _ => ?_⟩
    · simp [goOn, hphase, updateLoop]
    · simp [Loop.goOn, hphase]
  | ended =>
    refine Or.inl ⟨id, ?_, fun _ => ?_⟩
    · simp [goOn, hphase, updateLoop]
    · simp [Loop.goOn, hphase]
  | executing u result offset =>
    refine Or.inl ⟨(·.endExecution f.clock result offset), ?_, fun _ => ?_⟩
    · simp [goOn, hphase]
    · simp [Loop.goOn, hphase]
  | sleeping u wakeable =>
    refine Or.inl ⟨(·.rise f.clock.uptime), ?_, fun _ => ?_⟩
    · simp [goOn, hphase]
    · simp [Loop.goOn, hphase]
  | due t =>
    cases hcancelled : l.cancelled with
    | true =>
      refine Or.inl ⟨Loop.stop, ?_, fun _ => ?_⟩
      · simp [goOn, hphase, hcancelled]
      · simp [Loop.goOn, hphase, hcancelled]
    | false =>
      obtain ⟨⟨execution, world⟩, hworker⟩ : ∃ done, workers i f.clock f.world = done := ⟨_, rfl⟩
      refine Or.inr ⟨t, execution, world, rfl, rfl, hworker, ?_⟩
      simp [goOn, hphase, hcancelled, hworker]

theorem goOn_of_cancelled (workers : Workers ω) (f : Fleet ω) (i : Nat) {l : Loop}
    (hcancelled : l.cancelled = true) :
    ∃ change, f.goOn workers i l = f.updateLoop i change ∧
      ∀ execution, change l = l.goOn f.clock execution := by
  rcases goOn_eq workers f i l with hself | ⟨t, execution, world, -, hnot, -⟩
  · exact hself
  · cases hcancelled.symm.trans hnot

@[simp] theorem clock_goOn (f : Fleet ω) (i : Nat) (l : Loop) :
    (f.goOn workers i l).clock = f.clock := by
  rcases goOn_eq workers f i l with
    ⟨change, heq, -⟩ | ⟨t, execution, world, -, -, -, heq⟩
  · rw [heq]
    rfl
  · rw [heq]
    simp [updateLoop]

@[simp] theorem length_goOn (f : Fleet ω) (i : Nat) (l : Loop) :
    (f.goOn workers i l).loops.length = f.loops.length := by
  rcases goOn_eq workers f i l with
    ⟨change, heq, -⟩ | ⟨t, execution, world, -, -, -, heq⟩
  · simp [heq]
  · simp [heq]

/-- A loop that goes on changes as a loop, whatever becomes of the others; those that its worker
    wakes are woken first. -/
theorem Each.goOn {i : Nat} {l : Loop} (h : f.Each P) (hl : f.loops[i]? = some l)
    (hdue : ∀ t, l.wakesAt? = some t → t ≤ f.clock.uptime)
    (hwake : ∀ j l, P j l → P j (l.wake f.clock.uptime))
    (hgoOn : ∀ l, P i l → (∀ t, l.wakesAt? = some t → t ≤ f.clock.uptime) →
      P i (l.goOn f.clock (workers i f.clock f.world).1)) : (f.goOn workers i l).Each P := by
  rcases goOn_eq workers f i l with
    ⟨change, heq, hchange⟩ | ⟨t, execution, world, hphase, hcancelled, hworker, heq⟩
  · rw [heq]
    apply h.updateLoop
    intro l' hl'
    cases hl.symm.trans hl'
    rw [hchange]
    exact hgoOn l (h i l hl) hdue
  · rw [heq]
    -- A loop that is due is not changed much by a wake-up: it is still due and goes on as it did.
    have hwoken : (({ f with world }).wakeAll execution.wakes).Each fun j (l' : Loop) =>
        P j l' ∧ (i = j → l'.phase = Phase.due t ∧ l'.cancelled = l.cancelled) := by
      apply Each.wakeAll
      · intro j l' hl'
        refine ⟨h j l' hl', ?_⟩
        rintro rfl
        cases hl.symm.trans hl'
        exact ⟨hphase, rfl⟩
      · intro j l' ⟨hl', hsame⟩
        refine ⟨hwake j l' hl', ?_⟩
        intro hij
        obtain ⟨hphase', hcancelled'⟩ := hsame hij
        rw [Loop.wake_of_busy l' _ (by simp [hphase'])]
        exact ⟨hphase', hcancelled'⟩
    have hrun (l' : Loop) (hl' : (({ f with world }).wakeAll execution.wakes).loops[i]? = some l') :
        P i (l'.run f.clock execution.takes execution.result execution.offset) := by
      obtain ⟨hP, hsame⟩ := hwoken i l' hl'
      obtain ⟨hphase', hcancelled'⟩ := hsame rfl
      have hgo := hgoOn l' hP (by
        intro u hu
        apply hdue u
        rw [← hu]
        simp [Loop.wakesAt?, hphase, hphase'])
      simpa [Loop.goOn, hphase', hcancelled', hcancelled, hworker] using hgo
    apply Each.updateLoop
    · intro j l' hl'
      exact (hwoken j l' hl').1
    · exact hrun

/-! ### The first event -/

theorem earlier_eq_none {first : Option (Nat × Span)} {entry : Loop × Nat} :
    earlier first entry = none ↔ first = none ∧ entry.1.wakesAt? = none := by
  unfold earlier
  cases entry.1.wakesAt? <;> cases first <;> simp
  split <;> simp

theorem earlier_eq_some {first : Option (Nat × Span)} {entry : Loop × Nat} {i : Nat} {t : Span}
    (h : earlier first entry = some (i, t)) :
    first = some (i, t) ∨ entry.2 = i ∧ entry.1.wakesAt? = some t := by
  unfold earlier at h
  cases hwakes : entry.1.wakesAt? with
  | none =>
    rw [hwakes] at h
    exact Or.inl h
  | some u =>
    rw [hwakes] at h
    cases first with
    | none =>
      cases h
      exact Or.inr ⟨rfl, rfl⟩
    | some best =>
      dsimp only at h
      split at h
      · cases h
        exact Or.inr ⟨rfl, rfl⟩
      · exact Or.inl h

theorem earlier_le_first (entry : Loop × Nat) (j : Nat) (u : Span) :
    ∃ i t, earlier (some (j, u)) entry = some (i, t) ∧ t ≤ u := by
  unfold earlier
  cases entry.1.wakesAt? with
  | none => exact ⟨j, u, rfl, Int.le_refl _⟩
  | some t =>
    dsimp only
    split
    · rename_i hless
      exact ⟨_, _, rfl, Int.le_of_lt hless⟩
    · exact ⟨_, _, rfl, Int.le_refl _⟩

theorem earlier_le_entry (first : Option (Nat × Span)) {entry : Loop × Nat} {u : Span}
    (h : entry.1.wakesAt? = some u) : ∃ i t, earlier first entry = some (i, t) ∧ t ≤ u := by
  unfold earlier
  rw [h]
  cases first with
  | none => exact ⟨_, _, rfl, Int.le_refl _⟩
  | some best =>
    dsimp only
    split
    · exact ⟨_, _, rfl, Int.le_refl _⟩
    · rename_i hless
      exact ⟨_, _, rfl, Int.not_lt.1 hless⟩

theorem foldl_earlier_eq_none {entries : List (Loop × Nat)} {first : Option (Nat × Span)} :
    entries.foldl earlier first = none ↔ first = none ∧ ∀ e ∈ entries, e.1.wakesAt? = none := by
  induction entries generalizing first with
  | nil => simp
  | cons entry rest ih =>
    rw [List.foldl_cons, ih, earlier_eq_none, List.forall_mem_cons, and_assoc]

theorem foldl_earlier_eq_some {entries : List (Loop × Nat)} {first : Option (Nat × Span)}
    {i : Nat} {t : Span} (h : entries.foldl earlier first = some (i, t)) :
    (first = some (i, t) ∨ ∃ e ∈ entries, e.2 = i ∧ e.1.wakesAt? = some t) ∧
      ∀ u, (∃ j, first = some (j, u)) ∨ (∃ e ∈ entries, e.1.wakesAt? = some u) → t ≤ u := by
  induction entries generalizing first with
  | nil =>
    rw [List.foldl_nil] at h
    subst h
    simp [Span.le_iff]
  | cons entry rest ih =>
    obtain ⟨hfrom, hleast⟩ := ih h
    refine ⟨?_, ?_⟩
    · rcases hfrom with hearlier | ⟨e, he, hat⟩
      · rcases earlier_eq_some hearlier with hfirst | hentry
        · exact Or.inl hfirst
        · exact Or.inr ⟨entry, List.mem_cons_self, hentry⟩
      · exact Or.inr ⟨e, List.mem_cons_of_mem entry he, hat⟩
    · intro u hu
      rcases hu with ⟨j, rfl⟩ | ⟨e, he, hat⟩
      · obtain ⟨i, v, hv, hle⟩ := earlier_le_first entry j u
        exact Int.le_trans (hleast v (Or.inl ⟨i, hv⟩)) hle
      · rcases List.mem_cons.1 he with rfl | hrest
        · obtain ⟨i, v, hv, hle⟩ := earlier_le_entry first hat
          exact Int.le_trans (hleast v (Or.inl ⟨i, hv⟩)) hle
        · exact hleast u (Or.inr ⟨e, hrest, hat⟩)

theorem next?_eq_none : f.next? = none ↔ ∀ l ∈ f.loops, l.wakesAt? = none := by
  unfold next?
  rw [foldl_earlier_eq_none]
  constructor
  · rintro ⟨-, h⟩ l hl
    obtain ⟨i, hi⟩ := List.mem_iff_getElem?.1 hl
    exact h (l, i) (List.mem_zipIdx_iff_getElem?.2 hi)
  · intro h
    refine ⟨rfl, ?_⟩
    rintro ⟨l, i⟩ he
    exact h l (List.mem_of_getElem? (List.mem_zipIdx_iff_getElem?.1 he))

theorem next?_eq_some {i : Nat} {t : Span} (h : f.next? = some (i, t)) :
    ∃ l, f.loops[i]? = some l ∧ l.wakesAt? = some t ∧
      ∀ other ∈ f.loops, ∀ u, other.wakesAt? = some u → t ≤ u := by
  obtain ⟨hfrom, hleast⟩ := foldl_earlier_eq_some h
  obtain ⟨⟨l, j⟩, he, rfl, hat⟩ := hfrom.resolve_left (by simp)
  refine ⟨l, List.mem_zipIdx_iff_getElem?.1 he, hat, ?_⟩
  intro other hother u hu
  obtain ⟨k, hk⟩ := List.mem_iff_getElem?.1 hother
  exact hleast u (Or.inr ⟨(other, k), List.mem_zipIdx_iff_getElem?.2 hk, hu⟩)

/-! ### Events -/

theorem step?_eq_none {deadline : Span} (h : f.step? workers deadline = none) :
    ∀ l ∈ f.loops, ∀ t, l.wakesAt? = some t → deadline < t := by
  intro l hl t ht
  unfold step? at h
  cases hnext : f.next? with
  | none => cases (next?_eq_none.1 hnext l hl).symm.trans ht
  | some first =>
    obtain ⟨i, u⟩ := first
    obtain ⟨first, hfirst, -, hleast⟩ := next?_eq_some hnext
    simp only [hnext] at h
    split at h
    · rename_i hlate
      exact Int.lt_of_lt_of_le hlate (hleast l hl t ht)
    · simp [hfirst] at h

/-- An event: the clock moves on to the time of the loop that is first, and the loop goes on. -/
theorem step?_eq_some {deadline : Span} (h : f.step? workers deadline = some g) :
    ∃ i l t, f.loops[i]? = some l ∧ l.wakesAt? = some t ∧ t ≤ deadline ∧
      (∀ other ∈ f.loops, ∀ u, other.wakesAt? = some u → t ≤ u) ∧
      g = ({ f with clock := f.clock.reach t }).goOn workers i l := by
  unfold step? at h
  cases hnext : f.next? with
  | none =>
    rw [hnext] at h
    cases h
  | some first =>
    obtain ⟨i, t⟩ := first
    obtain ⟨l, hl, hat, hleast⟩ := next?_eq_some hnext
    simp only [hnext] at h
    split at h
    · cases h
    · rename_i hdue
      simp only [hl, Option.map_some, Option.some.injEq] at h
      exact ⟨i, l, t, hl, hat, Int.not_lt.1 hdue, hleast, h.symm⟩

/-- What time keeps of loops: the clock may move on to the first event, loops may be woken, and
    the loop that is first goes on. -/
structure Lasting (P : Clock → Nat → Loop → Prop) : Prop where
  reach : ∀ {clock j l} t, P clock j l → (∀ u, l.wakesAt? = some u → t ≤ u) → P (clock.reach t) j l
  wake : ∀ {clock j l}, P clock j l → P clock j (l.wake clock.uptime)
  goOn : ∀ {clock j l} execution, P clock j l → (∀ t, l.wakesAt? = some t → t ≤ clock.uptime) →
    P clock j (l.goOn clock execution)

theorem Lasting.step {P : Clock → Nat → Loop → Prop} {deadline : Span} (hP : Lasting P)
    (h : f.Each (P f.clock)) (hstep : f.step? workers deadline = some g) :
    g.Each (P g.clock) := by
  obtain ⟨i, l, t, hl, hat, -, hleast, rfl⟩ := step?_eq_some hstep
  rw [clock_goOn]
  have hreached : ({ f with clock := f.clock.reach t }).Each (P (f.clock.reach t)) := by
    intro j other hother
    apply hP.reach t (h j other hother)
    exact hleast other (List.mem_of_getElem? hother)
  apply hreached.goOn hl
  · intro u hu
    cases hat.symm.trans hu
    exact Clock.le_uptime_reach f.clock t
  · intro j l hl
    exact hP.wake hl
  · intro l hl hdue
    exact hP.goOn _ hl hdue

/-- What every event keeps is kept by any number of them. -/
theorem runEvents_induction (workers : Workers ω) (deadline : Span) {P : Fleet ω → Prop}
    (hstep : ∀ f g, P f → f.step? workers deadline = some g → P g) (n : Nat) (h : P f) :
    P (f.runEvents workers deadline n) := by
  induction n generalizing f with
  | zero => exact h
  | succ n ih =>
    unfold runEvents
    cases hevent : f.step? workers deadline with
    | none => exact h
    | some g => exact ih (hstep f g h hevent)

/-- Nothing is left to happen after as many events as there can be. -/
theorem runEvents_settles (workers : Workers ω) (deadline : Span) {P : Fleet ω → Prop}
    (left : Fleet ω → Nat)
    (hstep : ∀ f g, P f → f.step? workers deadline = some g → P g ∧ left g < left f) {n : Nat}
    (h : P f) (hn : left f ≤ n) :
    P (f.runEvents workers deadline n) ∧
      (f.runEvents workers deadline n).step? workers deadline = none := by
  induction n generalizing f with
  | zero =>
    refine ⟨h, ?_⟩
    cases hevent : f.step? workers deadline with
    | none => exact hevent
    | some g =>
      have hless := (hstep f g h hevent).2
      omega
  | succ n ih =>
    unfold runEvents
    cases hevent : f.step? workers deadline with
    | none => exact ⟨h, hevent⟩
    | some g =>
      obtain ⟨hg, hless⟩ := hstep f g h hevent
      exact ih hg (by omega)

theorem exists_step?_of_isRunning (workers : Workers ω) {l : Loop} (hl : l ∈ f.loops)
    (hruns : l.isRunning = true) : ∃ i t g, f.next? = some (i, t) ∧ f.step? workers t = some g := by
  have hwakes : ∃ t, l.wakesAt? = some t := by
    unfold Loop.isRunning at hruns
    unfold Loop.wakesAt?
    split at hruns
    · cases hruns
    · cases hruns
    · cases hphase : l.phase <;> simp_all
  obtain ⟨u, hu⟩ := hwakes
  cases hnext : f.next? with
  | none => cases (next?_eq_none.1 hnext l hl).symm.trans hu
  | some first =>
    obtain ⟨i, t⟩ := first
    cases hevent : f.step? workers t with
    | some g => exact ⟨i, t, g, rfl, hevent⟩
    | none =>
      obtain ⟨first, hfirst, hat, -⟩ := next?_eq_some hnext
      have hlate := step?_eq_none hevent first (List.mem_of_getElem? hfirst) t hat
      exact absurd hlate (Int.lt_irrefl t.nanos)

/-- Every loop that was asked to end has ended after as many events as there can be. -/
theorem runToEnd_ends (workers : Workers ω) {P : Fleet ω → Prop} (left : Fleet ω → Nat)
    (hstep : ∀ f g t, P f → f.step? workers t = some g → P g ∧ left g < left f) {n : Nat}
    (h : P f) (hn : left f ≤ n) :
    P (f.runToEnd workers n) ∧
      ∀ l ∈ (f.runToEnd workers n).loops, l.cancelled = true → l.isRunning = false := by
  induction n generalizing f with
  | zero =>
    refine ⟨h, ?_⟩
    intro l hl _
    apply Bool.eq_false_iff.2
    intro hruns
    obtain ⟨i, t, g, -, hevent⟩ := exists_step?_of_isRunning workers hl hruns
    have hless := (hstep f g t h hevent).2
    omega
  | succ n ih =>
    unfold runToEnd
    split
    · rename_i hany
      obtain ⟨l, hl, hruns⟩ := List.any_eq_true.1 hany
      obtain ⟨i, t, g, hnext, hevent⟩ :=
        exists_step?_of_isRunning workers hl (Bool.and_eq_true_iff.1 hruns).1
      obtain ⟨hg, hless⟩ := hstep f g t h hevent
      simpa only [hnext, hevent] using ih hg (by omega)
    · rename_i hnone
      refine ⟨h, ?_⟩
      intro l hl hcancelled
      apply Bool.eq_false_iff.2
      intro hruns
      exact hnone (List.any_eq_true.2 ⟨l, hl, by simp [hruns, hcancelled]⟩)

/-! ### Time that passes -/

theorem uptime_runEvents_le (workers : Workers ω) {deadline : Span} (n : Nat)
    (h : f.clock.uptime ≤ deadline) :
    (f.runEvents workers deadline n).clock.uptime ≤ deadline := by
  apply runEvents_induction workers deadline (P := fun g => g.clock.uptime ≤ deadline)
  · intro g g' hle hstep
    obtain ⟨i, l, t, -, -, hdue, -, rfl⟩ := step?_eq_some hstep
    rw [clock_goOn, Clock.uptime_reach]
    split
    · exact hdue
    · exact hle
  · exact h

/-- Every loop goes on later than now, if at all. -/
def Quiet (f : Fleet ω) : Prop := ∀ l ∈ f.loops, ∀ t, l.wakesAt? = some t → f.clock.uptime < t

/-- A span of time passes by events, after which there is nothing left to happen if every event
    uses something up of which there was no more than events were allowed for. -/
theorem pass_settles (workers : Workers ω) {P : Fleet ω → Prop} (left : Fleet ω → Nat) {span : Span}
    (hstep : ∀ f' g, P f' → f'.step? workers (f.clock.uptime + span) = some g →
      P g ∧ left g < left f')
    (hspan : 0 ≤ span) {n : Nat} (h : P f) (hn : left f ≤ f.eventBound span n) :
    ∃ g, P g ∧ g.clock.uptime ≤ f.clock.uptime + span ∧
      f.pass workers span n = { g with clock := g.clock.at_ (f.clock.uptime + span) } ∧
      (f.pass workers span n).Quiet := by
  obtain ⟨hg, hnone⟩ := runEvents_settles workers (f.clock.uptime + span) left hstep h hn
  have hclock := uptime_runEvents_le workers (f.eventBound span n)
    (Span.le_add f.clock.uptime hspan)
  have hlate := step?_eq_none hnone
  exact ⟨_, hg, hclock, rfl, hlate⟩

@[simp] theorem length_runEvents (deadline : Span) (n : Nat) (f : Fleet ω) :
    (f.runEvents workers deadline n).loops.length = f.loops.length := by
  apply runEvents_induction workers deadline (P := fun g => g.loops.length = f.loops.length)
  · intro g g' hlength hstep
    obtain ⟨i, l, t, -, -, -, -, rfl⟩ := step?_eq_some hstep
    simpa using hlength
  · rfl

@[simp] theorem length_passTo (pending : ω → Nat) (uptime : Span) (f : Fleet ω) :
    (f.passTo workers pending uptime).loops.length = f.loops.length := by
  unfold passTo
  split
  · simp [pass]
  · rfl

@[simp] theorem length_perform (pending : ω → Nat) (f : Fleet ω) (call : Call) :
    (f.perform workers pending call).loops.length = f.loops.length := by
  cases call with
  | spawn => simp [perform, spawnAll, updateAll]
  | wake numbers => simp [perform]
  | cancel => simp [perform, cancelAll, updateAll]
  | execute i =>
    simp only [perform, execute, length_updateLoop]
    split
    · simp [pass]
    · simp

@[simp] theorem length_course (pending : ω → Nat) (calls : List (Span × Call)) (f : Fleet ω) :
    (f.course workers pending calls).loops.length = f.loops.length := by
  induction calls generalizing f with
  | nil => rfl
  | cons entry rest ih =>
    rw [course, ih]
    simp

theorem passTo_of_resting {pending : ω → Nat} (h : ∀ l ∈ f.loops, l.wakesAt? = none)
    (uptime : Span) :
    f.passTo workers pending uptime = { f with clock := f.clock.reach uptime } := by
  have hnone (deadline : Span) : f.step? workers deadline = none := by
    unfold step?
    rw [next?_eq_none.2 h]
  have hrun (deadline : Span) (n : Nat) : f.runEvents workers deadline n = f := by
    cases n with
    | zero => rfl
    | succ n => rw [runEvents, hnone]
  unfold passTo Clock.reach
  split
  · rw [pass, hrun, Span.add_sub_cancel]
  · rfl

/-! ### What lasts -/

/-- What time keeps of loops, and what is kept as the clock alone goes on. -/
structure Enduring (P : Clock → Nat → Loop → Prop) : Prop where
  later : ∀ {clock j l} t, clock.uptime ≤ t → P clock j l → P (clock.at_ t) j l
  wake : ∀ {clock j l}, P clock j l → P clock j (l.wake clock.uptime)
  goOn : ∀ {clock j l} execution, P clock j l → (∀ t, l.wakesAt? = some t → t ≤ clock.uptime) →
    P clock j (l.goOn clock execution)

namespace Enduring

variable {P : Clock → Nat → Loop → Prop} {pending : ω → Nat}

theorem lasting (hP : Enduring P) : Lasting P where
  reach := by
    intro clock j l t h _
    unfold Clock.reach
    split
    · rename_i hless
      exact hP.later t (Int.le_of_lt hless) h
    · exact h
  wake := hP.wake
  goOn := hP.goOn

theorem pass {span : Span} (hP : Enduring P) (hspan : 0 ≤ span) (n : Nat)
    (h : f.Each (P f.clock)) :
    (f.pass workers span n).Each (P (f.pass workers span n).clock) := by
  have hrun := runEvents_induction workers (f.clock.uptime + span)
    (P := fun g => g.Each (P g.clock)) (fun _ _ => hP.lasting.step) (f.eventBound span n) h
  have hclock := uptime_runEvents_le workers (f.eventBound span n)
    (Span.le_add f.clock.uptime hspan)
  intro j l hl
  exact hP.later _ hclock (hrun j l hl)

theorem passTo (hP : Enduring P) (uptime : Span) (h : f.Each (P f.clock)) :
    (f.passTo workers pending uptime).Each (P (f.passTo workers pending uptime).clock) := by
  unfold Fleet.passTo
  split
  · rename_i hless
    exact hP.pass (Span.sub_nonneg hless) _ h
  · exact h

theorem working (hP : Enduring P) (workers : Workers ω) (i n : Nat) (h : f.Each (P f.clock))
    (hstart : ∀ l, f.loops[i]? = some l → P f.clock i (l.directStart f.clock.now)) :
    (f.working workers i n).Each (P (f.working workers i n).clock) := by
  have hstarted : (f.updateLoop i (·.directStart f.clock.now)).Each (P f.clock) :=
    h.updateLoop i _ hstart
  have hwoken (g : Fleet ω) (numbers : List Nat) (hg : g.Each (P g.clock)) :
      (g.wakeAll numbers).Each (P (g.wakeAll numbers).clock) := by
    rw [clock_wakeAll]
    exact hg.wakeAll numbers fun j l hl => hP.wake hl
  unfold Fleet.working
  dsimp only
  split
  · rename_i htakes
    apply hP.pass (Int.le_of_lt htakes)
    exact hwoken _ _ hstarted
  · exact hwoken _ _ hstarted

/-- Calls keep what lasts if what they do directly to loops keeps it. -/
theorem perform (hP : Enduring P) (call : Call)
    (hspawn : call = .spawn → ∀ {clock j l}, P clock j l → P clock j (l.spawn clock.uptime))
    (hcancel : call = .cancel → ∀ {clock j l}, P clock j l → P clock j (l.cancel clock.uptime))
    (hexecute : ∀ i, call = .execute i → ∀ {clock l}, P clock i l →
      P clock i (l.directStart clock.now) ∧ P clock i (l.directFinish clock.now))
    (h : f.Each (P f.clock)) :
    (f.perform workers pending call).Each (P (f.perform workers pending call).clock) := by
  cases call with
  | spawn => exact h.updateAll fun j l hl => hspawn rfl hl
  | cancel => exact h.updateAll fun j l hl => hcancel rfl hl
  | wake numbers =>
    rw [Fleet.perform, clock_wakeAll]
    exact h.wakeAll numbers fun j l hl => hP.wake hl
  | execute i =>
    have hworked := hP.working workers i (pending f.world) h
      fun l hl => (hexecute i rfl (h i l hl)).1
    exact hworked.updateLoop i _ fun l hl => (hexecute i rfl (hworked i l hl)).2

theorem course (hP : Enduring P) (calls : List (Span × Call))
    (hspawn : (∃ t, (t, .spawn) ∈ calls) →
      ∀ {clock j l}, P clock j l → P clock j (l.spawn clock.uptime))
    (hcancel : (∃ t, (t, .cancel) ∈ calls) →
      ∀ {clock j l}, P clock j l → P clock j (l.cancel clock.uptime))
    (hexecute : ∀ i, (∃ t, (t, .execute i) ∈ calls) → ∀ {clock l}, P clock i l →
      P clock i (l.directStart clock.now) ∧ P clock i (l.directFinish clock.now))
    (h : f.Each (P f.clock)) :
    (f.course workers pending calls).Each (P (f.course workers pending calls).clock) := by
  induction calls generalizing f with
  | nil => exact h
  | cons entry rest ih =>
    obtain ⟨t, call⟩ := entry
    rw [Fleet.course]
    apply ih
    · rintro ⟨u, hu⟩
      exact hspawn ⟨u, List.mem_cons_of_mem _ hu⟩
    · rintro ⟨u, hu⟩
      exact hcancel ⟨u, List.mem_cons_of_mem _ hu⟩
    · rintro i ⟨u, hu⟩
      exact hexecute i ⟨u, List.mem_cons_of_mem _ hu⟩
    · apply hP.perform call
      · rintro rfl
        exact hspawn ⟨t, List.mem_cons_self⟩
      · rintro rfl
        exact hcancel ⟨t, List.mem_cons_self⟩
      · rintro i rfl
        exact hexecute i ⟨t, List.mem_cons_self⟩
      · exact hP.passTo t h

end Enduring

end Fleet

end Courier.Poll
