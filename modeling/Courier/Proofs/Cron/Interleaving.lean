/-
  Courier/Proofs/Cron/Interleaving.lean
  =====================================
  **Workers that judge the same jobs at once.**

  A tick reads the table of jobs when it begins and then judges its jobs one by one.
  The ticks of any number of workers, with clocks of their own, interleave with one
  another and with whatever else is asked of the store (`Scene.step`).  What a tick
  read may be old when it judges a job, and that it judges by it is of no consequence:
  a firing looks at the table again, and as no other firing comes in between, the
  firings of a job are a chain, in which every occurrence lies between two runs
  (`Chained`).

  The invariant behind it is `Orderly.judged`: what a tick has passed over cannot be
  fired by its clock, and neither can what it fired itself, no matter who goes on.
-/
import Courier.Proofs.Cron.Fire
import Courier.Proofs.Cron.Search

namespace Courier.Cron

open Courier.Time

/-! ### Ticks under way -/

/-- A tick of a worker under way. -/
structure Tick where
  now : Instant
  /-- The records that were read when the tick began. -/
  records : List JobRecord
  /-- The jobs that are not judged yet. -/
  left : List Job
  /-- How many jobs were fired so far, or the failure that ended the tick. -/
  answer : Except Error Nat

/-- A firing that was committed. -/
structure Firing where
  job : Job
  /-- The instant at which the job ran last by the table. -/
  before : Instant
  occurrence : Instant
  /-- The instant that the table shows for this run. -/
  at_ : Instant
deriving DecidableEq, Repr

namespace Tick

/-- Judges the next job. -/
def judge (clock : Clock) (tick : Tick) (s : Store) : Tick × Store :=
  match tick.left with
  | [] => (tick, s)
  | job :: rest =>
    match fireDue clock tick.now tick.records [job] s with
    | (.ok fired, s) => ({ tick with left := rest, answer := tick.answer.map (· + fired) }, s)
    | (.error e, s) => ({ tick with left := [], answer := .error e }, s)

/-- What is fired when the next job is judged. -/
def firings (clock : Clock) (tick : Tick) (s : Store) : List Firing :=
  match tick.left with
  | [] => []
  | job :: _ =>
    match fireDue clock tick.now tick.records [job] s,
        (job.stage clock tick.now s JobTransaction.start).1 with
    | (.ok 1, s'), .ok (some occurrence) =>
      [⟨job, lastRun s.jobs job, occurrence, lastRun s'.jobs job⟩]
    | _, _ => []

end Tick

/-! ### Scenes -/

/-- A store with the ticks that work on it. -/
structure Scene where
  store : Store
  ticks : List Tick

/-- What happens next on a scene. -/
inductive Act where
  /-- Something is asked of the store. -/
  | operate (clock : Clock) (operation : Operation)
  /-- A worker begins a tick and reads the table. -/
  | begin_ (now : Instant)
  /-- The tick of a number judges its next job. -/
  | judge (number : Nat) (clock : Clock)

namespace Act

/-- Whether everything is removed, the table of jobs included. -/
def Clears : Act → Prop
  | .operate _ .clear => True
  | _ => False

/-- Whether an item is filed in a queue other than by a firing. -/
def Enqueues (name : String) : Act → Prop
  | .operate _ (.enqueue freshName item) => item.queueName freshName = name
  | _ => False

end Act

namespace Scene

variable (jobs : List Job)

def step (scene : Scene) : Act → Scene
  | .operate clock operation => { scene with store := (operation.run clock scene.store).2 }
  | .begin_ now =>
    { scene with ticks := scene.ticks ++ [⟨now, scene.store.jobs, jobs, .ok 0⟩] }
  | .judge number clock =>
    match scene.ticks[number]? with
    | none => scene
    | some tick =>
      let (tick, store) := tick.judge clock scene.store
      { store, ticks := scene.ticks.set number tick }

/-- What is fired by an act. -/
def fired (scene : Scene) : Act → List Firing
  | .judge number clock =>
    match scene.ticks[number]? with
    | none => []
    | some tick => tick.firings clock scene.store
  | _ => []

def after (scene : Scene) (acts : List Act) : Scene := acts.foldl (step jobs) scene

/-- What is fired by acts that follow one another. -/
def firings (scene : Scene) : List Act → List Firing
  | [] => []
  | act :: acts => scene.fired act ++ firings (scene.step jobs act) acts

end Scene

/-! ### Judging one job -/

section Judging

variable {clock : Clock} {tick : Tick} {s : Store} {job : Job}

/-- What can come of judging the next job of a tick: the tick, the store and the firings. -/
inductive Tick.Judged (clock : Clock) (tick : Tick) (s : Store) :
    Tick → Store → List Firing → Prop where
  | finished (none : tick.left = []) : Judged clock tick s tick s []
  | pass {job : Job} {rest : List Job} (next : tick.left = job :: rest)
      (why : job.due? (lastRun tick.records job) tick.now = none ∨ job.Idle tick.now s) :
      Judged clock tick s { tick with left := rest, answer := tick.answer.map (· + 0) } s []
  | fire {job : Job} {rest : List Job} {occurrence : Instant} {s' : Store}
      (next : tick.left = job :: rest) (fires : job.Fires clock tick.now occurrence s s') :
      Judged clock tick s { tick with left := rest, answer := tick.answer.map (· + 1) } s'
        [⟨job, lastRun s.jobs job, occurrence, tick.now⟩]

theorem fireDue_single (clock : Clock) (now : Instant) (records : List JobRecord) (job : Job)
    (s : Store) :
    fireDue clock now records [job] s =
      if (job.due? (lastRun records job) now).isNone then (.ok 0, s)
      else (job.fire clock now s).map fun fired => if fired then 1 else 0 := by
  simp only [fireDue]
  split
  · rfl
  · obtain ⟨answer, s'⟩ := job.fire clock now s
    cases answer <;> rfl

/-- Judging a job passes over it or fires it, and does not fail. -/
theorem Tick.judge_spec (hs : s.Sound) (hurls : ∀ job ∈ tick.left, job.url ≠ "") (clock : Clock) :
    tick.Judged clock s (tick.judge clock s).1 (tick.judge clock s).2 (tick.firings clock s) := by
  unfold judge firings
  cases hleft : tick.left with
  | nil => exact .finished hleft
  | cons job rest =>
    have hurl : job.url ≠ "" := hurls job (hleft ▸ List.mem_cons_self)
    dsimp only
    rw [fireDue_single]
    by_cases hdue : job.due? (lastRun tick.records job) tick.now = none
    · rw [hdue]
      exact .pass hleft (Or.inl hdue)
    · rw [if_neg fun h => hdue (Option.isNone_iff_eq_none.1 h)]
      rcases Job.fire_cases hs hurl clock tick.now with
        ⟨hidle, hstage, hfire⟩ | ⟨occurrence, s', hfires, hstage, hfire⟩
      · rw [hfire, hstage]
        exact .pass hleft (Or.inr hidle)
      · rw [hfire, hstage]
        have hlast : lastRun s'.jobs job = tick.now := by
          rw [Job.lastRun_jobs, hfires.record_eq hs hurl, if_pos rfl]
        show tick.Judged clock s { tick with left := rest, answer := tick.answer.map (· + 1) } s'
          [⟨job, lastRun s.jobs job, occurrence, lastRun s'.jobs job⟩]
        rw [hlast]
        exact .fire hleft hfires

end Judging

/-! ### What every act keeps -/

/-- What is asked of the jobs that workers judge. -/
structure Workable (jobs : List Job) : Prop where
  names : (jobs.map (·.name)).Nodup
  urls : ∀ job ∈ jobs, job.url ≠ ""
  advance : ∀ job ∈ jobs, job.Advances

namespace Scene

variable {jobs : List Job} {scene : Scene} {act : Act} {job : Job} {now : Instant}

/-- Whether no tick has failed and no job that a tick is done with, or passes over by what it read,
    can be fired by the clock of the tick. -/
structure Orderly (jobs : List Job) (scene : Scene) : Prop where
  sound : scene.store.Sound
  answered : ∀ tick ∈ scene.ticks, ∃ count, tick.answer = .ok count
  left : ∀ tick ∈ scene.ticks, ∀ job ∈ tick.left, job ∈ jobs
  judged : ∀ tick ∈ scene.ticks, ∀ job ∈ jobs,
    (job ∉ tick.left ∨ job.due? (lastRun tick.records job) tick.now = none) →
      job.Idle tick.now scene.store

theorem Orderly.start {s : Store} (hs : s.Sound) (jobs : List Job) :
    (⟨s, []⟩ : Scene).Orderly jobs :=
  ⟨hs, nofun, nofun, nofun⟩

theorem judge_cases (h : scene.Orderly jobs) (hjobs : Workable jobs) (number : Nat)
    (clock : Clock) :
    (scene.step jobs (.judge number clock) = scene ∧ scene.fired (.judge number clock) = []) ∨
      ∃ tick tick' store fs, scene.ticks[number]? = some tick ∧
        tick.Judged clock scene.store tick' store fs ∧
        scene.step jobs (.judge number clock) = ⟨store, scene.ticks.set number tick'⟩ ∧
        scene.fired (.judge number clock) = fs := by
  unfold step fired
  dsimp only
  cases hfound : scene.ticks[number]? with
  | none => exact Or.inl ⟨rfl, rfl⟩
  | some tick =>
    have hmem := List.mem_of_getElem? hfound
    have hurls : ∀ job ∈ tick.left, job.url ≠ "" := fun job hj =>
      hjobs.urls job (h.left tick hmem job hj)
    exact Or.inr ⟨tick, _, _, _, rfl, tick.judge_spec h.sound hurls clock, rfl, rfl⟩

/-- An act leaves the store as it was, asks something of it or fires one job. -/
theorem Orderly.act_cases (h : scene.Orderly jobs) (hjobs : Workable jobs) (act : Act) :
    (scene.fired act = [] ∧ (scene.step jobs act).store = scene.store) ∨
    (∃ clock operation, act = .operate clock operation) ∨
    ∃ job ∈ jobs, ∃ clock now occurrence,
      job.Fires clock now occurrence scene.store (scene.step jobs act).store ∧
      scene.fired act = [⟨job, lastRun scene.store.jobs job, occurrence, now⟩] := by
  cases act with
  | operate clock operation => exact Or.inr (Or.inl ⟨clock, operation, rfl⟩)
  | begin_ now => exact Or.inl ⟨rfl, rfl⟩
  | judge number clock =>
    rcases judge_cases h hjobs number clock with
      ⟨hstep, hfired⟩ | ⟨tick, tick', store, fs, hfound, hjudged, hstep, hfired⟩
    · rw [hstep]
      exact Or.inl ⟨hfired, rfl⟩
    rw [hstep, hfired]
    cases hjudged with
    | finished none => exact Or.inl ⟨rfl, rfl⟩
    | pass next why => exact Or.inl ⟨rfl, rfl⟩
    | @fire job rest occurrence _ next fires =>
      have hjob := h.left tick (List.mem_of_getElem? hfound) job (next ▸ List.mem_cons_self)
      exact Or.inr (Or.inr ⟨job, hjob, clock, tick.now, occurrence, fires, rfl⟩)

/-- An act other than a clear leaves the records of all jobs as they were, or it fires one job. -/
theorem Orderly.fired_cases (h : scene.Orderly jobs) (hjobs : Workable jobs) (hact : ¬ act.Clears) :
    (scene.fired act = [] ∧ ∀ job : Job,
      job.record (scene.step jobs act).store = job.record scene.store) ∨
    ∃ job ∈ jobs, ∃ clock now occurrence,
      job.Fires clock now occurrence scene.store (scene.step jobs act).store ∧
      scene.fired act = [⟨job, lastRun scene.store.jobs job, occurrence, now⟩] := by
  rcases h.act_cases hjobs act with ⟨hfired, hsame⟩ | ⟨clock, operation, rfl⟩ | hfires
  · exact Or.inl ⟨hfired, fun job => by rw [hsame]⟩
  · have hkept : operation ≠ .clear := fun heq => hact (heq ▸ trivial)
    have hsame : (scene.step jobs (.operate clock operation)).store.jobs = scene.store.jobs :=
      Store.jobs_operate h.sound clock hkept
    refine Or.inl ⟨rfl, fun job => ?_⟩
    unfold Job.record
    rw [hsame]
  · exact Or.inr hfires

/-- A job that cannot be fired at an instant cannot be fired at it later on either. -/
theorem Orderly.idle_step (h : scene.Orderly jobs) (hjobs : Workable jobs) (hact : ¬ act.Clears)
    (hjob : job ∈ jobs) (hidle : job.Idle now scene.store) :
    job.Idle now (scene.step jobs act).store := by
  rcases h.fired_cases hjobs hact with ⟨-, hrecord⟩ | ⟨other, hother, clock, at_, _, hfires, -⟩
  · exact Job.idle_of_record hidle (hrecord job)
  · exact hfires.idle h.sound (hjobs.urls other hother) (hjobs.advance other hother) hidle
      fun hname => Keyed.eq_of_mem hjobs.names hjob hother hname

/-- A tick that is done with its next job leaves an orderly scene if that job cannot be fired by its
    clock, or is one that it passes over. -/
theorem Orderly.advance (h : scene.Orderly jobs) {tick : Tick} {number : Nat}
    (hfound : scene.ticks[number]? = some tick) {rest : List Job} (hnext : tick.left = job :: rest)
    {s : Store} (hs : s.Sound)
    (hidle : ∀ tick ∈ scene.ticks, ∀ job ∈ jobs,
      (job ∉ tick.left ∨ job.due? (lastRun tick.records job) tick.now = none) →
        job.Idle tick.now s)
    (hdone : job.due? (lastRun tick.records job) tick.now = none ∨ job.Idle tick.now s)
    (count : Nat) :
    (⟨s, scene.ticks.set number
      { tick with left := rest, answer := tick.answer.map (· + count) }⟩ : Scene).Orderly jobs := by
  have hmem := List.mem_of_getElem? hfound
  have hset {other tick' : Tick} (ho : other ∈ scene.ticks.set number tick') :
      other ∈ scene.ticks ∨ other = tick' := List.mem_or_eq_of_mem_set ho
  refine ⟨hs, fun other ho => ?_, fun other ho => ?_, fun other ho job' hj hwhy => ?_⟩
  · rcases hset ho with ho | rfl
    · exact h.answered other ho
    · obtain ⟨before, hbefore⟩ := h.answered tick hmem
      exact ⟨before + count, by dsimp only; rw [hbefore]; rfl⟩
  · rcases hset ho with ho | rfl
    · exact h.left other ho
    · exact fun job' hj => h.left tick hmem job' (hnext ▸ List.mem_cons_of_mem _ hj)
  · rcases hset ho with ho | rfl
    · exact hidle other ho job' hj hwhy
    · by_cases hsame : job' = job
      · subst hsame
        exact hdone.elim (fun hnot => hidle tick hmem job' hj (Or.inr hnot)) id
      · refine hidle tick hmem job' hj (hwhy.imp_left fun hn hleft => ?_)
        rw [hnext] at hleft
        exact (List.mem_cons.1 hleft).elim hsame hn

/-- Every act other than a clear leaves an orderly scene orderly. -/
theorem Orderly.step (h : scene.Orderly jobs) (hjobs : Workable jobs) (hact : ¬ act.Clears) :
    (scene.step jobs act).Orderly jobs := by
  have hidle : ∀ tick ∈ scene.ticks, ∀ job ∈ jobs,
      (job ∉ tick.left ∨ job.due? (lastRun tick.records job) tick.now = none) →
        job.Idle tick.now (scene.step jobs act).store :=
    fun tick ht job hj hdone => h.idle_step hjobs hact hj (h.judged tick ht job hj hdone)
  cases act with
  | operate clock operation =>
    let call : Store.Call scene.store.sharding := ⟨clock, .operate operation⟩
    exact ⟨(call.run_sound h.sound rfl).1, h.answered, h.left, hidle⟩
  | begin_ now =>
    have hnew : ∀ tick ∈ (scene.step jobs (.begin_ now)).ticks,
        tick ∈ scene.ticks ∨ tick = ⟨now, scene.store.jobs, jobs, .ok 0⟩ := fun tick ht =>
      (List.mem_append.1 ht).imp_right List.mem_singleton.1
    refine ⟨h.sound, fun tick ht => ?_, fun tick ht => ?_, fun tick ht job hj hdone => ?_⟩
    · rcases hnew tick ht with ht | rfl
      · exact h.answered tick ht
      · exact ⟨0, rfl⟩
    · rcases hnew tick ht with ht | rfl
      · exact h.left tick ht
      · exact fun job hj => hj
    · rcases hnew tick ht with ht | rfl
      · exact hidle tick ht job hj hdone
      -- the new tick has judged nothing, and what it read is still what the table shows
      · exact Job.idle_of_not_due (hdone.resolve_left fun hn => hn hj)
  | judge number clock =>
    rcases judge_cases h hjobs number clock with
      ⟨hstep, -⟩ | ⟨tick, tick', store, fs, hfound, hjudged, hstep, -⟩
    · rw [hstep]
      exact h
    rw [hstep] at hidle ⊢
    have hmem := List.mem_of_getElem? hfound
    -- what the tick read is stale by now, but a job that was not due by it has not become due
    cases hjudged with
    | finished none =>
      obtain ⟨hlt, rfl⟩ := List.getElem?_eq_some_iff.1 hfound
      rw [List.set_getElem_self]
      exact h
    | pass next why => exact h.advance hfound next h.sound h.judged why 0
    | @fire job rest occurrence _ next fires =>
      have hjob := h.left tick hmem job (next ▸ List.mem_cons_self)
      refine h.advance hfound next (fires.sound h.sound).1 hidle (Or.inr ?_) 1
      exact fires.idle_self h.sound (hjobs.urls job hjob) (hjobs.advance job hjob)

theorem Orderly.after (h : scene.Orderly jobs) (hjobs : Workable jobs) {acts : List Act}
    (hacts : ∀ act ∈ acts, ¬ act.Clears) : (scene.after jobs acts).Orderly jobs := by
  induction acts generalizing scene with
  | nil => exact h
  | cons act rest ih =>
    obtain ⟨hact, hrest⟩ := List.forall_mem_cons.1 hacts
    exact ih (h.step hjobs hact) hrest

theorem Orderly.sharding_after (h : scene.Orderly jobs) (hjobs : Workable jobs) {acts : List Act}
    (hacts : ∀ act ∈ acts, ¬ act.Clears) :
    (scene.after jobs acts).store.sharding = scene.store.sharding := by
  induction acts generalizing scene with
  | nil => rfl
  | cons act rest ih =>
    obtain ⟨hact, hrest⟩ := List.forall_mem_cons.1 hacts
    refine Eq.trans (ih (h.step hjobs hact) hrest) ?_
    rcases h.act_cases hjobs act with
      ⟨-, hsame⟩ | ⟨clock, operation, rfl⟩ | ⟨job, -, _, _, _, hfires, -⟩
    · rw [hsame]
    · let call : Store.Call scene.store.sharding := ⟨clock, .operate operation⟩
      exact (call.run_sound h.sound rfl).2
    · exact (hfires.sound h.sound).2

/-! ### The firings of a job -/

theorem not_clears_of_fired {firing : Firing} (h : firing ∈ scene.fired act) : ¬ act.Clears := by
  cases act with
  | operate clock operation => cases h
  | begin_ now => cases h
  | judge number clock => exact not_false

theorem firings_append (jobs : List Job) (scene : Scene) (acts more : List Act) :
    scene.firings jobs (acts ++ more) =
      scene.firings jobs acts ++ (scene.after jobs acts).firings jobs more := by
  induction acts generalizing scene with
  | nil => rfl
  | cons act rest ih =>
    show scene.fired act ++ (scene.step jobs act).firings jobs (rest ++ more) = _
    rw [ih, ← List.append_assoc]
    rfl

def firingsOf (job : Job) (firings : List Firing) : List Firing := firings.filter (·.job = job)

end Scene

/-- Whether firings of a job follow one another, the first one upon a run at a given instant: each
    is for the occurrence that follows the run before, which lies between that run and the one that
    is recorded for it. -/
def Chained (job : Job) (last : Instant) : List Firing → Prop
  | [] => True
  | firing :: rest => firing.before = last ∧ job.nextOccurrence last = some firing.occurrence ∧
      last < firing.occurrence ∧ firing.occurrence < firing.at_ ∧ Chained job firing.at_ rest

theorem Chained.lt {job : Job} {last : Instant} {firings : List Firing}
    (h : Chained job last firings) :
    ∀ firing ∈ firings, last < firing.occurrence ∧ last < firing.at_ := by
  induction firings generalizing last with
  | nil => nofun
  | cons first rest ih =>
    obtain ⟨-, -, hbefore, hafter, hrest⟩ := h
    have hlast : last < first.at_ := Int.lt_trans hbefore hafter
    intro firing hf
    rcases List.mem_cons.1 hf with rfl | hf
    · exact ⟨hbefore, hlast⟩
    · obtain ⟨hocc, hat⟩ := ih hrest firing hf
      exact ⟨Int.lt_trans hlast hocc, Int.lt_trans hlast hat⟩

theorem Chained.pairwise {job : Job} {last : Instant} {firings : List Firing}
    (h : Chained job last firings) :
    firings.Pairwise fun a b => a.occurrence < b.occurrence ∧ a.at_ < b.at_ := by
  induction firings generalizing last with
  | nil => exact .nil
  | cons first rest ih =>
    obtain ⟨-, -, -, hafter, hrest⟩ := h
    refine .cons (fun firing hf => ?_) (ih hrest)
    obtain ⟨hocc, hat⟩ := hrest.lt firing hf
    exact ⟨Int.lt_trans hafter hocc, hat⟩

theorem Chained.isSecond {job : Job} {last : Instant} {firings : List Firing}
    (h : Chained job last firings) :
    ∀ firing ∈ firings, ∃ second, firing.occurrence = .ofSeconds second := by
  induction firings generalizing last with
  | nil => nofun
  | cons first rest ih =>
    obtain ⟨-, hnext, -, -, hrest⟩ := h
    intro firing hf
    rcases List.mem_cons.1 hf with rfl | hf
    · exact Schedule.next_isSecond hnext
    · exact ih hrest firing hf

namespace Scene

variable {jobs : List Job} {scene : Scene} {act : Act} {job : Job} {now : Instant}

/-- The firings of a job are chained, from its last run on. -/
theorem Orderly.chained (h : scene.Orderly jobs) (hjobs : Workable jobs) (hjob : job ∈ jobs)
    {acts : List Act} (hacts : ∀ act ∈ acts, ¬ act.Clears) :
    Chained job (lastRun scene.store.jobs job) (firingsOf job (scene.firings jobs acts)) := by
  induction acts generalizing scene with
  | nil => trivial
  | cons act rest ih =>
    obtain ⟨hact, hacts⟩ := List.forall_mem_cons.1 hacts
    have hrest := ih (h.step hjobs hact) hacts
    have hsplit : firingsOf job (scene.firings jobs (act :: rest)) =
        firingsOf job (scene.fired act) ++
          firingsOf job ((scene.step jobs act).firings jobs rest) :=
      List.filter_append ..
    rw [hsplit]
    rw [Job.lastRun_jobs] at hrest
    rcases h.fired_cases hjobs hact with
      ⟨hnone, hrecord⟩ | ⟨other, hother, clock, now, occurrence, hfires, hone⟩
    · rw [hnone, Job.lastRun_jobs, ← hrecord]
      exact hrest
    have hrecord := hfires.record_eq h.sound (hjobs.urls other hother) job
    rw [hone]
    by_cases hsame : other = job
    · subst hsame
      obtain ⟨hnext, hbefore, hafter⟩ := hfires.bounds (hjobs.advance other hother)
      have hself (firing : Firing) (hf : firing.job = other) :
          firingsOf other [firing] = [firing] := by
        simp [firingsOf, hf]
      rw [hrecord, if_pos rfl] at hrest
      rw [hself _ rfl]
      exact ⟨rfl, hnext, hbefore, hafter, hrest⟩
    · have hname : ¬ job.name = other.name := fun hname =>
        hsame (Keyed.eq_of_mem hjobs.names hother hjob hname.symm)
      have hnone (firing : Firing) (hf : firing.job = other) : firingsOf job [firing] = [] := by
        simp [firingsOf, hf, hsame]
      rw [hrecord, if_neg hname, ← Job.lastRun_jobs] at hrest
      rw [hnone _ rfl]
      exact hrest

/-! ### Ticks that begin later -/

/-- A tick goes by one instant from its beginning to its end. -/
theorem now_step (jobs : List Job) (scene : Scene) (act : Act) {number : Nat} {tick : Tick}
    (h : scene.ticks[number]? = some tick) :
    ∃ tick', (scene.step jobs act).ticks[number]? = some tick' ∧ tick'.now = tick.now := by
  cases act with
  | operate clock operation => exact ⟨tick, h, rfl⟩
  | begin_ now =>
    have hlt := (List.getElem?_eq_some_iff.1 h).1
    exact ⟨tick, (List.getElem?_append_left hlt).trans h, rfl⟩
  | judge other clock =>
    unfold step
    dsimp only
    cases hfound : scene.ticks[other]? with
    | none => exact ⟨tick, h, rfl⟩
    | some judged =>
      by_cases hsame : other = number
      · subst hsame
        obtain rfl : tick = judged := Option.some.inj (h.symm.trans hfound)
        refine ⟨(tick.judge clock scene.store).1, ?_, ?_⟩
        · exact List.getElem?_set_self (List.getElem?_eq_some_iff.1 h).1
        · unfold Tick.judge
          split
          · rfl
          · split <;> rfl
      · exact ⟨tick, (List.getElem?_set_ne hsame).trans h, rfl⟩

/-- A tick at an instant at which no job can be fired fires nothing and changes nothing, whatever
    goes on meanwhile. -/
theorem Orderly.quiet (h : scene.Orderly jobs) (hjobs : Workable jobs) {acts : List Act}
    (hacts : ∀ act ∈ acts, ¬ act.Clears) (hidle : ∀ job ∈ jobs, job.Idle now scene.store)
    {number : Nat} {tick : Tick} (hfound : scene.ticks[number]? = some tick)
    (hnow : tick.now = now) (clock : Clock) :
    (scene.after jobs acts).fired (.judge number clock) = [] ∧
      ((scene.after jobs acts).step jobs (.judge number clock)).store =
        (scene.after jobs acts).store := by
  induction acts generalizing scene tick with
  | nil =>
    show scene.fired _ = [] ∧ (scene.step jobs _).store = scene.store
    rcases judge_cases h hjobs number clock with
      ⟨hstep, hfired⟩ | ⟨other, tick', store, fs, hother, hjudged, hstep, hfired⟩
    · rw [hstep]
      exact ⟨hfired, rfl⟩
    rw [hstep, hfired]
    cases hjudged with
    | finished none => exact ⟨rfl, rfl⟩
    | pass next why => exact ⟨rfl, rfl⟩
    | @fire job rest occurrence _ next fires =>
      obtain rfl : tick = other := Option.some.inj (hfound.symm.trans hother)
      have hjob := h.left tick (List.mem_of_getElem? hfound) job (next ▸ List.mem_cons_self)
      exact absurd (hnow ▸ hidle job hjob) fires.not_idle
  | cons act rest ih =>
    obtain ⟨hact, hrest⟩ := List.forall_mem_cons.1 hacts
    obtain ⟨tick', hfound', hnow'⟩ := now_step jobs scene act hfound
    exact ih (h.step hjobs hact) hrest
      (fun job hj => h.idle_step hjobs hact hj (hidle job hj)) hfound' (hnow'.trans hnow)

/-- A tick that begins after another one has returned, at an instant not after its own, fires
    nothing and changes nothing. -/
theorem Orderly.quiet_after_return (h : scene.Orderly jobs) (hjobs : Workable jobs) {tick : Tick}
    (htick : tick ∈ scene.ticks) (hreturned : tick.left = []) (hnow : now ≤ tick.now)
    {acts : List Act} (hacts : ∀ act ∈ acts, ¬ act.Clears) (clock : Clock) :
    let later := (scene.step jobs (.begin_ now)).after jobs acts
    later.fired (.judge scene.ticks.length clock) = [] ∧
      (later.step jobs (.judge scene.ticks.length clock)).store = later.store := by
  have hbegin : (scene.step jobs (.begin_ now)).Orderly jobs := h.step hjobs not_false
  have hfound : (scene.step jobs (.begin_ now)).ticks[scene.ticks.length]? =
      some ⟨now, scene.store.jobs, jobs, .ok 0⟩ := List.getElem?_concat_length
  refine hbegin.quiet hjobs hacts (fun job hj => ?_) hfound rfl clock
  exact (h.judged tick htick job hj (Or.inl (by rw [hreturned]; exact List.not_mem_nil))).mono hnow

/-! ### A tick by itself -/

theorem fireDue_cons (clock : Clock) (now : Instant) (records : List JobRecord) (job : Job)
    (rest : List Job) (s : Store) :
    fireDue clock now records (job :: rest) s =
      match fireDue clock now records [job] s with
      | (.ok fired, s) => (fireDue clock now records rest s).map (· + fired)
      | (.error e, s) => (.error e, s) := by
  have hzero (answer : Answer Store Nat) : answer.map (· + 0) = answer := by
    obtain ⟨result, s⟩ := answer
    cases result <;> rfl
  rw [fireDue_single, fireDue]
  split
  · exact (hzero _).symm
  · obtain ⟨answer, s'⟩ := job.fire clock now s
    cases answer with
    | error e => rfl
    | ok fired =>
      cases fired with
      | true => rfl
      | false => exact rfl

/-- Nothing is judged by a tick that has returned. -/
theorem after_returned (jobs : List Job) (scene : Scene) {number : Nat} {tick : Tick}
    (hfound : scene.ticks[number]? = some tick) (hreturned : tick.left = []) (clock : Clock)
    (times : Nat) : scene.after jobs (List.replicate times (.judge number clock)) = scene := by
  have hstep : scene.step jobs (.judge number clock) = scene := by
    unfold step
    dsimp only
    rw [hfound]
    dsimp only
    have hjudge : tick.judge clock scene.store = (tick, scene.store) := by
      unfold Tick.judge
      rw [hreturned]
    obtain ⟨hlt, rfl⟩ := List.getElem?_eq_some_iff.1 hfound
    rw [hjudge, List.set_getElem_self]
  induction times with
  | zero => rfl
  | succ times ih =>
    show (scene.step jobs _).after jobs _ = scene
    rw [hstep]
    exact ih

/-- A tick that is not interrupted judges its jobs in one go. -/
theorem after_judging (jobs : List Job) (scene : Scene) {number : Nat} {tick : Tick}
    (hfound : scene.ticks[number]? = some tick) {count : Nat} (hanswer : tick.answer = .ok count)
    (clock : Clock) :
    scene.after jobs (List.replicate tick.left.length (.judge number clock)) =
      ⟨(fireDue clock tick.now tick.records tick.left scene.store).2,
        scene.ticks.set number { tick with
          left := []
          answer := (fireDue clock tick.now tick.records tick.left scene.store).1.map
            (· + count) }⟩ := by
  induction hleft : tick.left generalizing scene tick count with
  | nil =>
    obtain ⟨hlt, rfl⟩ := List.getElem?_eq_some_iff.1 hfound
    have hsame : ({ scene.ticks[number] with
        left := [], answer := (Except.ok 0 : Except Error Nat).map (· + count) } : Tick) =
        scene.ticks[number] := by
      show Tick.mk _ _ [] (.ok (0 + count)) = _
      rw [← hleft, Nat.zero_add, ← hanswer]
    show scene = ⟨scene.store, scene.ticks.set number _⟩
    rw [show (fireDue clock scene.ticks[number].now scene.ticks[number].records []
      scene.store).1 = .ok 0 from rfl, hsame, List.set_getElem_self]
  | cons job rest ih =>
    obtain ⟨hlt, -⟩ := List.getElem?_eq_some_iff.1 hfound
    have hfirst : scene.step jobs (.judge number clock) =
        ⟨(tick.judge clock scene.store).2,
          scene.ticks.set number (tick.judge clock scene.store).1⟩ := by
      unfold step
      dsimp only
      rw [hfound]
    have hself (tick' : Tick) : (scene.ticks.set number tick')[number]? = some tick' :=
      List.getElem?_set_self hlt
    show (scene.step jobs _).after jobs (List.replicate rest.length _) = _
    rw [hfirst, fireDue_cons]
    unfold Tick.judge
    rw [hleft]
    dsimp only
    obtain ⟨answer, s'⟩ := fireDue clock tick.now tick.records [job] scene.store
    cases answer with
    | error e => exact after_returned jobs _ (hself _) rfl clock rest.length
    | ok fired =>
      dsimp only
      have hsofar : tick.answer.map (· + fired) = .ok (count + fired) := by
        rw [hanswer]
        rfl
      rw [ih _ (hself _) hsofar rfl, List.set_set]
      dsimp only
      obtain ⟨result, s''⟩ := fireDue clock tick.now tick.records rest s'
      cases result with
      | error e => rfl
      | ok more =>
        show Scene.mk _ (scene.ticks.set _ ⟨_, _, _, .ok (more + (count + fired))⟩) =
          Scene.mk _ (scene.ticks.set _ ⟨_, _, _, .ok (more + fired + count)⟩)
        rw [Nat.add_comm count, Nat.add_assoc]
        rfl

/-- A tick that is not interrupted is a tick of the service. -/
theorem after_uninterrupted (jobs : List Job) (scene : Scene) (clock : Clock) (now : Instant) :
    scene.after jobs (.begin_ now :: List.replicate jobs.length (.judge scene.ticks.length clock)) =
      ⟨(Cron.tick clock now jobs scene.store).2, scene.ticks ++ [⟨now, scene.store.jobs, [],
          (Cron.tick clock now jobs scene.store).1⟩]⟩ := by
  let begun : Tick := ⟨now, scene.store.jobs, jobs, .ok 0⟩
  have hfound : (scene.step jobs (.begin_ now)).ticks[scene.ticks.length]? = some begun :=
    List.getElem?_concat_length
  have hset (last : Tick) : (scene.ticks ++ [begun]).set scene.ticks.length last =
      scene.ticks ++ [last] := by
    rw [List.set_append_right _ _ (Nat.le_refl _), Nat.sub_self]
    rfl
  have htick : Cron.tick clock now jobs scene.store =
      fireDue clock now scene.store.jobs jobs scene.store := rfl
  have hmap (answer : Except Error Nat) : answer.map (· + 0) = answer := by cases answer <;> rfl
  show (scene.step jobs (.begin_ now)).after jobs (List.replicate begun.left.length _) = _
  rw [after_judging jobs _ hfound rfl clock, hmap, htick]
  exact congrArg _ (hset _)

end Scene

end Courier.Cron
