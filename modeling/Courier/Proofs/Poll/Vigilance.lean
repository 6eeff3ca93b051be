/-
  Courier/Proofs/Poll/Vigilance.lean
  ==================================
  **What the health of a loop tells.**

  The health check allows a loop a span of time since its last sign of life, and the
  loop itself computes how long it sleeps; nothing in the program relates the two.
  `Loop.Lives` are the lives that a loop can have, with the signs it gives: time passes
  up to the next event and no further, and what is due or called for happens in any
  order, so that every instant is seen before and after what happens at it.  A loop
  whose executions are timely is never shown as unhealthy before it is asked to end,
  and one that has given no sign for longer than it is allowed always is
  (`health_tells_life_from_stall`).

  The invariant of the first is `Alert`: the event that a loop waits for is no further
  from its last sign than allowed.  That of the second is `Recorded`: what is shown of
  a loop are its last signs.
-/
import Courier.Proofs.Poll.Cancellation
import Courier.Proofs.Poll.Interval

namespace Courier.Poll

open Courier.Time

/-! ### Lives -/

/-- A sign of life: an execution begins or ends, in the loop or directly. -/
inductive Sign where
  | start (at_ : Instant) (execution : Execution)
  | stop (at_ : Instant)

/-- When the last execution began.  The latest sign comes first. -/
def lastStart? : List Sign → Option Instant
  | [] => none
  | .start t _ :: _ => some t
  | .stop _ :: log => lastStart? log

/-- When the last execution ended. -/
def lastStop? : List Sign → Option Instant
  | [] => none
  | .start _ _ :: log => lastStop? log
  | .stop t :: _ => some t

/-- The signs at the instant at which a loop begins an execution. -/
def Execution.signs (e : Execution) (now : Instant) : List Sign :=
  if 0 < e.takes then [.start now e] else [.stop now, .start now e]

theorem Execution.start_mem_signs {e begun : Execution} {now t : Instant} :
    .start t begun ∈ e.signs now ↔ t = now ∧ begun = e := by
  unfold signs
  split <;> simp

namespace Loop

/-- What can become of a loop and of the clocks, with the signs of life on the way. -/
inductive Lives (first : Loop) (start : Clock) : List Sign → Clock → Loop → Prop
  | begin : Lives first start [] start first
  /-- Time passes, up to the instant at which the loop goes on or to one before that. -/
  | wait {log : List Sign} {clock : Clock} {l : Loop} {t : Span} (h : Lives first start log clock l)
      (hlater : clock.uptime ≤ t) (hnext : ∀ u, l.wakesAt? = some u → t ≤ u) :
      Lives first start log (clock.at_ t) l
  /-- A loop that is due executes its worker, whatever that does. -/
  | run {log : List Sign} {clock : Clock} {l : Loop} {t : Span} (h : Lives first start log clock l)
      (e : Execution) (hphase : l.phase = .due t) (hdue : t ≤ clock.uptime)
      (hgoes : l.cancelled = false) :
      Lives first start (e.signs clock.now ++ log) clock (l.run clock e.takes e.result e.offset)
  | endExecution {log : List Sign} {clock : Clock} {l : Loop} {t : Span}
      {result : Except Error Bool} {offset : Int} (h : Lives first start log clock l)
      (hphase : l.phase = .executing t result offset) (hdue : t ≤ clock.uptime) :
      Lives first start (.stop clock.now :: log) clock (l.endExecution clock result offset)
  | rise {log : List Sign} {clock : Clock} {l : Loop} {t : Span} {wakeable : Bool}
      (h : Lives first start log clock l) (hphase : l.phase = .sleeping t wakeable)
      (hdue : t ≤ clock.uptime) : Lives first start log clock (l.rise clock.uptime)
  | stop {log : List Sign} {clock : Clock} {l : Loop} {t : Span} (h : Lives first start log clock l)
      (hphase : l.phase = .due t) (hdue : t ≤ clock.uptime) (hends : l.cancelled = true) :
      Lives first start log clock l.stop
  /-- From here on, what is done to a loop at any instant. -/
  | spawn {log : List Sign} {clock : Clock} {l : Loop} (h : Lives first start log clock l) :
      Lives first start log clock (l.spawn clock.uptime)
  | wake {log : List Sign} {clock : Clock} {l : Loop} (h : Lives first start log clock l) :
      Lives first start log clock (l.wake clock.uptime)
  | cancel {log : List Sign} {clock : Clock} {l : Loop} (h : Lives first start log clock l) :
      Lives first start log clock (l.cancel clock.uptime)
  | directStart {log : List Sign} {clock : Clock} {l : Loop} (h : Lives first start log clock l)
      (e : Execution) :
      Lives first start (.start clock.now e :: log) clock (l.directStart clock.now)
  | directFinish {log : List Sign} {clock : Clock} {l : Loop} (h : Lives first start log clock l) :
      Lives first start (.stop clock.now :: log) clock (l.directFinish clock.now)

end Loop

/-! ### What a loop is allowed -/

/-- How long a loop may go without a sign of life: its interval, and five seconds more if that is
    varied. -/
def Settings.patience (s : Settings) : Span :=
  if s.interval ≤ jitterThreshold then s.interval else s.interval + greatestJitter

theorem Settings.interval_le_patience (s : Settings) : s.interval ≤ s.patience := by
  unfold patience
  split
  · exact Int.le_refl _
  · exact Span.le_add _ (by decide)

/-- The health check allows a loop as much, if its interval is shorter than half of what can be
    compared. -/
theorem allowance_eq_patience {s : Settings} (h : s.interval < .ofMillis (2 ^ 62)) :
    allowance s.interval = s.patience := by
  have hwide : ¬ greatestDifference < s.patience := by
    simp only [Settings.patience, greatestDifference, greatestJitter, jitterThreshold,
      Span.ofMillis, Span.ofSeconds, Span.lt_iff, Span.le_iff,
      show Nat.pow 2 63 = 9223372036854775808 by rfl] at h ⊢
    split
    · omega
    · simp only [Span.nanos_add]
      omega
  have hspan : (allowance? s.interval).getD greatestDifference = s.patience := by
    unfold allowance? Settings.patience
    split
    · rfl
    · rw [if_pos]
      · rfl
      · simp only [greatestDuration, greatestJitter, Span.ofMillis, Span.ofSeconds, Span.lt_iff,
          Span.le_iff, Span.nanos_add, show Nat.pow 2 64 = 18446744073709551616 by rfl] at h ⊢
        omega
  unfold allowance
  simp only [hspan, if_neg hwide]

/-- An instant that is shown, and not before the last sign of life, is that sign. -/
theorem LoopStatus.reference_eq {s : LoopStatus} {now : Instant} (hle : s.reference ≤ now)
    (hshown : s.lastStarted = some now ∨ s.lastFinished = some now) : s.reference = now := by
  obtain ⟨-, hstarted, hfinished⟩ := reference_le_iff.1 (Int.le_refl s.reference.nanos)
  have hge : now ≤ s.reference := hshown.elim (hstarted now) (hfinished now)
  exact Instant.le_antisymm hle hge

theorem LoopStatus.reference_started {s : LoopStatus} {now : Instant} (h : s.reference ≤ now) :
    (s.started now).reference = now := by
  obtain ⟨hcreated, -, hfinished⟩ := reference_le_iff.1 h
  apply reference_eq _ (Or.inl rfl)
  refine reference_le_iff.2 ⟨hcreated, ?_, hfinished⟩
  rintro u ⟨⟩
  exact Int.le_refl _

theorem LoopStatus.reference_finished {s : LoopStatus} {now : Instant} (h : s.reference ≤ now) :
    (s.finished now).reference = now := by
  obtain ⟨hcreated, hstarted, -⟩ := reference_le_iff.1 h
  apply reference_eq _ (Or.inr rfl)
  refine reference_le_iff.2 ⟨hcreated, hstarted, ?_⟩
  rintro u ⟨⟩
  exact Int.le_refl _

/-- An execution that does not fail and takes at most an interval of time, after which that is
    varied by at most five seconds. -/
structure Execution.Timely (interval : Span) (e : Execution) : Prop where
  succeeds : ∃ more, e.result = .ok more
  nonneg : 0 ≤ e.takes
  takes : e.takes ≤ interval
  offset : -5000 ≤ e.offset ∧ e.offset ≤ 5000

namespace Loop

variable {first l : Loop} {start clock : Clock} {log : List Sign}

@[simp] theorem settings_spawn (l : Loop) (uptime : Span) :
    (l.spawn uptime).settings = l.settings := by
  unfold spawn
  split <;> rfl

@[simp] theorem settings_cancel (l : Loop) (uptime : Span) :
    (l.cancel uptime).settings = l.settings := by
  unfold cancel
  split <;> rfl

/-- The habits of a worker do not change. -/
theorem Lives.settings (h : first.Lives start log clock l) : l.settings = first.settings := by
  induction h with
  | begin => rfl
  | wait _ _ _ ih => exact ih
  | run _ e _ _ _ ih => simpa using ih
  | endExecution _ _ _ ih => simpa using ih
  | rise _ _ _ ih => exact ih
  | stop _ _ _ _ ih => exact ih
  | spawn _ ih => simpa using ih
  | wake _ ih => simpa using ih
  | cancel _ ih => simpa using ih
  | directStart _ _ ih => exact ih
  | directFinish _ ih => exact ih

/-! ### What is recorded -/

/-- What is shown of a loop are its creation and its last signs of life. -/
structure Recorded (created : Instant) (log : List Sign) (s : LoopStatus) : Prop where
  created : s.createdAt = created
  started : s.lastStarted = lastStart? log
  finished : s.lastFinished = lastStop? log

variable {created : Instant}

@[simp] theorem status_wake (l : Loop) (uptime : Span) : (l.wake uptime).status = l.status := by
  unfold wake
  split
  · split <;> rfl
  · rfl

@[simp] theorem status_spawn (l : Loop) (uptime : Span) : (l.spawn uptime).status = l.status := by
  unfold spawn
  split <;> rfl

@[simp] theorem status_cancel (l : Loop) (uptime : Span) : (l.cancel uptime).status = l.status := by
  unfold cancel
  split <;> rfl

theorem status_sleep (l : Loop) (uptime span : Span) (state : LoopState) (wakeable : Bool) :
    (l.sleep uptime span state wakeable).status = { l.status with state } := by
  unfold sleep
  dsimp only
  split
  · rfl
  · split <;> rfl

theorem Recorded.endExecution (h : Recorded created log l.status) (clock : Clock)
    (result : Except Error Bool) (offset : Int) :
    Recorded created (.stop clock.now :: log) (l.endExecution clock result offset).status := by
  cases result with
  | error e =>
    rw [endExecution_error, status_sleep]
    exact ⟨h.created, h.started, rfl⟩
  | ok more =>
    cases more with
    | true => exact ⟨h.created, h.started, rfl⟩
    | false =>
      rw [endExecution_idle, status_sleep]
      exact ⟨h.created, h.started, rfl⟩

theorem Recorded.run (h : Recorded created log l.status) (clock : Clock) (e : Execution) :
    Recorded created (e.signs clock.now ++ log)
      (l.run clock e.takes e.result e.offset).status := by
  have hbegun : Recorded created (.start clock.now e :: log)
      (l.beginExecution clock e.takes e.result e.offset).status := ⟨h.created, rfl, h.finished⟩
  unfold Loop.run Execution.signs
  dsimp only
  split
  · exact hbegun
  · exact hbegun.endExecution clock e.result e.offset

/-- Whatever a loop lives through, it is recorded. -/
theorem Lives.recorded (h : first.Lives start log clock l)
    (hfirst : Recorded created [] first.status) : Recorded created log l.status := by
  induction h with
  | begin => exact hfirst
  | wait _ _ _ ih => exact ih
  | run _ e _ _ _ ih => exact ih.run _ e
  | endExecution _ _ _ ih => exact ih.endExecution _ _ _
  | rise _ _ _ ih => exact ih
  | stop _ _ _ _ ih => exact ⟨ih.created, ih.started, ih.finished⟩
  | spawn _ ih => simpa using ih
  | wake _ ih => simpa using ih
  | cancel _ ih => simpa using ih
  | directStart _ _ ih => exact ⟨ih.created, rfl, ih.finished⟩
  | directFinish _ ih => exact ⟨ih.created, ih.started, rfl⟩

/-- A loop is unhealthy if its creation and all its last signs of life are too far back. -/
theorem Recorded.unhealthy (h : Recorded created log l.status)
    (hcountable : l.settings.interval < .ofMillis (2 ^ 62))
    (hcreated : l.settings.patience < clock.now - created)
    (hstarted : ∀ t, lastStart? log = some t → l.settings.patience < clock.now - t)
    (hfinished : ∀ t, lastStop? log = some t → l.settings.patience < clock.now - t) :
    (l.health clock.now).healthy = false := by
  simp only [Span.lt_iff, Instant.nanos_sub_instant] at hcreated hstarted hfinished
  -- Time is counted in nanoseconds, so what is further back is so by one of them at least.
  have hback : l.status.reference ≤ ⟨clock.now.nanos - l.settings.patience.nanos - 1⟩ := by
    rw [LoopStatus.reference_le_iff, h.created, h.started, h.finished]
    refine ⟨?_, fun u hu => ?_, fun u hu => ?_⟩
    · simp only [Instant.le_iff]
      omega
    · have hu := hstarted u hu
      simp only [Instant.le_iff]
      omega
    · have hu := hfinished u hu
      simp only [Instant.le_iff]
      omega
  have hlong : ¬ clock.now - l.status.reference ≤ l.settings.patience := by
    simp only [Instant.le_iff, Span.le_iff, Instant.nanos_sub_instant] at hback ⊢
    omega
  simp [Loop.health, allowance_eq_patience hcountable, hlong]

/-! ### Loops that are not late -/

/-- An execution that is in flight will succeed, and the sleep after it is varied by at most five
    seconds. -/
def WillSucceed (l : Loop) : Prop :=
  ∀ t result offset, l.phase = .executing t result offset →
    (∃ more, result = .ok more) ∧ -5000 ≤ offset ∧ offset ≤ 5000

/-- A loop that goes on soon enough after its last sign of life. -/
structure Alert (clock : Clock) (l : Loop) : Prop where
  patience : 0 ≤ l.settings.patience
  state : l.status.state ≠ .stopped
  past : l.status.reference ≤ clock.now
  recent : clock.now ≤ l.status.reference + l.settings.patience
  soon : ∃ t, l.wakesAt? = some t ∧ clock.origin + t ≤ l.status.reference + l.settings.patience
  succeeds : l.WillSucceed

theorem Alert.healthy (h : l.Alert clock) (hcountable : l.settings.interval < .ofMillis (2 ^ 62)) :
    (l.health clock.now).healthy = true := by
  have hrecent := h.recent
  have hwithin : clock.now - l.status.reference ≤ l.settings.patience := by
    simp only [Instant.le_iff, Span.le_iff, Instant.nanos_add, Instant.nanos_sub_instant] at *
    omega
  simp [Loop.health, allowance_eq_patience hcountable, hwithin, h.state]

/-- A loop that gives a sign of life, and waits for no longer than it is allowed. -/
theorem Alert.of_sign {t : Span} (hpatience : 0 ≤ l.settings.patience)
    (hstate : l.status.state ≠ .stopped) (hnow : l.status.reference = clock.now)
    (hwakes : l.wakesAt? = some t) (hsoon : t ≤ clock.uptime + l.settings.patience)
    (hsucceeds : l.WillSucceed) : l.Alert clock where
  patience := hpatience
  state := hstate
  past := by
    rw [hnow]
    exact Int.le_refl _
  recent := by
    rw [hnow]
    simp only [Instant.le_iff, Span.le_iff, Instant.nanos_add, Span.nanos_zero] at hpatience ⊢
    omega
  soon := by
    refine ⟨t, hwakes, ?_⟩
    simp only [hnow, Clock.now, Instant.le_iff, Span.le_iff, Instant.nanos_add, Span.nanos_add]
      at hsoon ⊢
    omega
  succeeds := hsucceeds

/-- The same of a loop that does not execute its worker. -/
theorem Alert.of_rest {t : Span} (hpatience : 0 ≤ l.settings.patience)
    (hstate : l.status.state ≠ .stopped) (hnow : l.status.reference = clock.now)
    (hrests : l.phase = .due t ∨ ∃ wakeable, l.phase = .sleeping t wakeable)
    (hsoon : t ≤ clock.uptime + l.settings.patience) : l.Alert clock := by
  have hwakes : l.wakesAt? = some t := by
    rcases hrests with hdue | ⟨wakeable, hsleeps⟩
    · simp [wakesAt?, hdue]
    · simp [wakesAt?, hsleeps]
  apply Alert.of_sign hpatience hstate hnow hwakes hsoon
  intro u result offset hphase
  rcases hrests with hdue | ⟨wakeable, hsleeps⟩
  · cases hdue.symm.trans hphase
  · cases hsleeps.symm.trans hphase

/-- A loop that is spawned when it is made is alert. -/
theorem Alert.spawned (s : Settings) (clock : Clock) (hpositive : 0 < s.interval) :
    ((Loop.create s clock.now).spawn clock.uptime).Alert clock := by
  have hpatience : 0 ≤ s.patience :=
    Int.le_trans (Int.le_of_lt hpositive) s.interval_le_patience
  have hidle : LoopState.idle ≠ .stopped := by decide
  exact .of_rest hpatience hidle rfl (Or.inl rfl) (Span.le_add _ hpatience)

theorem Alert.wakesSoon (h : l.Alert clock) :
    ∃ t, l.wakesAt? = some t ∧ t ≤ clock.uptime + l.settings.patience := by
  obtain ⟨t, ht, hsoon⟩ := h.soon
  have hpast := h.past
  refine ⟨t, ht, ?_⟩
  simp only [Clock.now, Instant.le_iff, Span.le_iff, Instant.nanos_add, Span.nanos_add]
    at hsoon hpast ⊢
  omega

/-- Time that passes up to the next event does not make a loop late. -/
theorem Alert.wait {t : Span} (h : l.Alert clock) (hlater : clock.uptime ≤ t)
    (hnext : ∀ u, l.wakesAt? = some u → t ≤ u) : l.Alert (clock.at_ t) := by
  obtain ⟨u, hu, hsoon⟩ := h.soon
  have hbefore := hnext u hu
  have hpast := h.past
  refine ⟨h.patience, h.state, ?_, ?_, ⟨u, hu, hsoon⟩, h.succeeds⟩
  all_goals
    simp only [Clock.now, Clock.at_, Instant.le_iff, Span.le_iff, Instant.nanos_add]
      at hlater hbefore hpast hsoon ⊢
    omega

theorem Alert.due (h : l.Alert clock) :
    ({ l with phase := .due clock.uptime } : Loop).Alert clock :=
  ⟨h.patience, h.state, h.past, h.recent, ⟨clock.uptime, rfl, h.recent⟩, nofun⟩

theorem Alert.wake (h : l.Alert clock) : (l.wake clock.uptime).Alert clock := by
  unfold Loop.wake
  split
  · split
    · exact h.due
    · exact ⟨h.patience, h.state, h.past, h.recent, h.soon, h.succeeds⟩
  · exact h

/-- A loop that is alert was spawned and has not ended. -/
theorem Alert.spawn (h : l.Alert clock) : (l.spawn clock.uptime).Alert clock := by
  obtain ⟨t, ht, -⟩ := h.soon
  unfold Loop.spawn
  split
  · rename_i hphase
    simp [wakesAt?, hphase] at ht
  · rename_i hphase
    simp [wakesAt?, hphase] at ht
  · exact h

theorem Alert.directStart (h : l.Alert clock) : (l.directStart clock.now).Alert clock := by
  obtain ⟨t, ht, hsoon⟩ := h.wakesSoon
  exact .of_sign h.patience nofun (LoopStatus.reference_started h.past) ht hsoon h.succeeds

theorem Alert.directFinish (h : l.Alert clock) : (l.directFinish clock.now).Alert clock := by
  obtain ⟨t, ht, hsoon⟩ := h.wakesSoon
  exact .of_sign h.patience nofun (LoopStatus.reference_finished h.past) ht hsoon h.succeeds

theorem Alert.beginExecution {e : Execution} (h : l.Alert clock)
    (he : e.Timely l.settings.interval) :
    (l.beginExecution clock e.takes e.result e.offset).Alert clock := by
  have htakes : e.takes ≤ l.settings.patience :=
    Int.le_trans he.takes l.settings.interval_le_patience
  have hsoon : clock.uptime + e.takes ≤ clock.uptime + l.settings.patience :=
    Int.add_le_add_left htakes clock.uptime.nanos
  refine .of_sign h.patience nofun (LoopStatus.reference_started h.past) rfl hsoon ?_
  rintro t result offset ⟨⟩
  exact ⟨he.succeeds, he.offset⟩

/-- A loop that ends an execution goes on at once, or sleeps no longer than it is allowed. -/
theorem Alert.endExecution {offset : Int} (h : l.Alert clock) (more : Bool)
    (hcountable : l.settings.interval < .ofMillis (2 ^ 62)) (hlow : -5000 ≤ offset)
    (hhigh : offset ≤ 5000) : (l.endExecution clock (.ok more) offset).Alert clock := by
  have hreference := LoopStatus.reference_finished h.past
  have hnow : clock.uptime ≤ clock.uptime + l.settings.patience := Span.le_add _ h.patience
  have hidle : LoopState.idle ≠ .stopped := by decide
  have hasleep : LoopState.sleeping ≠ .stopped := by decide
  cases more with
  | true => exact .of_rest h.patience hidle hreference (Or.inl rfl) hnow
  | false =>
    have hsleep : jittered l.settings.interval offset ≤ l.settings.patience := by
      apply jittered_le hlow hhigh
      simp only [Span.millis, Span.ofMillis, Span.lt_iff] at hcountable ⊢
      omega
    have hsoon := Int.add_le_add_left hsleep clock.uptime.nanos
    rw [endExecution_idle]
    unfold Loop.sleep
    dsimp only
    split
    · exact .of_rest h.patience hasleep hreference (Or.inl rfl) hnow
    · split
      · exact .of_rest h.patience hasleep hreference (Or.inl rfl) hnow
      · exact .of_rest h.patience hasleep hreference (Or.inr ⟨_, rfl⟩) hsoon

theorem Alert.run {e : Execution} (h : l.Alert clock)
    (hcountable : l.settings.interval < .ofMillis (2 ^ 62)) (he : e.Timely l.settings.interval) :
    (l.run clock e.takes e.result e.offset).Alert clock := by
  have hbegun := h.beginExecution he
  unfold Loop.run
  dsimp only
  split
  · exact hbegun
  · obtain ⟨more, hmore⟩ := he.succeeds
    rw [hmore] at hbegun ⊢
    exact hbegun.endExecution more hcountable he.offset.1 he.offset.2

/-- A loop whose executions are timely is alert until it is asked to end. -/
theorem Lives.alert (h : first.Lives start log clock l) (hfirst : first.Alert start)
    (hcountable : first.settings.interval < .ofMillis (2 ^ 62))
    (htimely : ∀ t e, Sign.start t e ∈ log → e.Timely first.settings.interval)
    (hasked : l.cancelled = false) : l.Alert clock := by
  induction h with
  | begin => exact hfirst
  | wait _ hlater hnext ih => exact (ih htimely hasked).wait hlater hnext
  | run h e _ _ hgoes ih =>
    have halert := ih (fun t e he => htimely t e (List.mem_append_right _ he)) hgoes
    have he := htimely _ e (List.mem_append_left _ (Execution.start_mem_signs.2 ⟨rfl, rfl⟩))
    rw [← h.settings] at hcountable he
    exact halert.run hcountable he
  | endExecution h hphase _ ih =>
    have halert :=
      ih (fun t e he => htimely t e (List.mem_cons_of_mem _ he)) (by simpa using hasked)
    obtain ⟨⟨more, rfl⟩, hlow, hhigh⟩ := halert.succeeds _ _ _ hphase
    rw [← h.settings] at hcountable
    exact halert.endExecution more hcountable hlow hhigh
  | rise _ _ _ ih => exact (ih htimely hasked).due
  | stop _ _ _ hends _ => cases hends.symm.trans hasked
  | spawn _ ih => exact (ih htimely (by simpa using hasked)).spawn
  | wake _ ih => exact (ih htimely (by simpa using hasked)).wake
  | cancel _ _ => simp at hasked
  | directStart _ e ih =>
    exact (ih (fun t e he => htimely t e (List.mem_cons_of_mem _ he)) hasked).directStart
  | directFinish _ ih =>
    exact (ih (fun t e he => htimely t e (List.mem_cons_of_mem _ he)) hasked).directFinish

/-- **Health raises no false alarm and misses no stall.**  A loop that is spawned when it is made,
    and whose executions succeed within its interval, is healthy at every instant until it is asked
    to end.  Whatever becomes of a loop, it is unhealthy as soon as its creation, its last start and
    its last end are all further back than its interval, or than five seconds more if that is
    varied. -/
theorem health_tells_life_from_stall (s : Settings) (start : Clock) (hpositive : 0 < s.interval)
    (hcountable : s.interval < .ofMillis (2 ^ 62)) :
    let allowed := if s.interval ≤ jitterThreshold then s.interval else s.interval + greatestJitter
    let created := Loop.create s start.now
    (∀ log clock l, (created.spawn start.uptime).Lives start log clock l →
      (∀ t e, Sign.start t e ∈ log → e.Timely s.interval) → l.cancelled = false →
      (l.health clock.now).healthy = true) ∧
    ∀ log clock l, created.Lives start log clock l →
      allowed < clock.now - start.now →
      (∀ t, lastStart? log = some t → allowed < clock.now - t) →
      (∀ t, lastStop? log = some t → allowed < clock.now - t) →
      (l.health clock.now).healthy = false := by
  intro allowed created
  constructor
  · intro log clock l h htimely hasked
    have hsettings : l.settings = s := h.settings
    apply (h.alert (.spawned s start hpositive) hcountable htimely hasked).healthy
    rwa [hsettings]
  · intro log clock l h hcreated hstarted hfinished
    have hsettings : l.settings = s := h.settings
    have hrecorded : Recorded start.now log l.status := h.recorded ⟨rfl, rfl, rfl⟩
    apply hrecorded.unhealthy
    all_goals rwa [hsettings]

/-- A worker that is polled every minute. -/
def minutely : Settings := { name := "minutely", interval := .ofSeconds 60 }

/-- An execution that finds nothing to do, before a sleep that is varied as much as it can be. -/
def idleExecution : Execution := { result := .ok false, offset := 5000 }

/-- An execution that does not come to an end for a day. -/
def hungExecution : Execution := { result := .ok true, takes := .ofDays 1 }

/-- A loop that sleeps as long as it can is healthy at the instant at which its sleep ends; one
    whose execution hangs is unhealthy a second later. -/
theorem minutely_loop_sleeps_or_hangs :
    let spawned := (Loop.create minutely ⟨0⟩).spawn 0
    let slept := spawned.run { origin := ⟨0⟩ } 0 (.ok false) 5000
    let hung := spawned.run { origin := ⟨0⟩ } (.ofDays 1) (.ok true) 0
    slept.phase = .sleeping (.ofSeconds 65) true ∧
      (slept.health (.ofSeconds 65)).healthy = true ∧
      (hung.health (.ofSeconds 66)).healthy = false := by
  obtain ⟨hlife, hstall⟩ := health_tells_life_from_stall minutely { origin := ⟨0⟩ } (by decide)
    (by decide)
  have hslept : ((Loop.create minutely ⟨0⟩).spawn 0).Lives { origin := ⟨0⟩ } _ _ _ :=
    .run .begin idleExecution rfl (Int.le_refl 0) rfl
  have hhung : (Loop.create minutely ⟨0⟩).Lives { origin := ⟨0⟩ } _ _ _ :=
    .run (.spawn .begin) hungExecution rfl (Int.le_refl 0) rfl
  refine ⟨rfl, ?_, ?_⟩
  · apply hlife _ _ _ (hslept.wait (t := .ofSeconds 65) (by decide) _)
    · intro t e he
      rw [List.append_nil, Execution.start_mem_signs] at he
      obtain ⟨-, rfl⟩ := he
      exact ⟨⟨false, rfl⟩, by decide, by decide, by decide⟩
    · rfl
    · rintro u ⟨⟩
      exact Int.le_refl _
  · apply hstall _ _ _ (hhung.wait (t := .ofSeconds 66) (by decide) _)
    · decide
    · rintro t ⟨⟩
      decide
    · nofun
    · rintro u ⟨⟩
      decide

end Loop

/-! ### The loops of a fleet -/

namespace Fleet

variable {ω : Type} {workers : Workers ω} {first f g : Fleet ω} {Q : Nat → Execution → Prop}
  {clock : Clock} {j : Nat} {l : Loop}

/-- The loop of a number has lived since a fleet was as it was first, by executions with a property,
    and was not asked to end. -/
def Lived (first : Fleet ω) (Q : Nat → Execution → Prop) (clock : Clock) (j : Nat) (l : Loop) :
    Prop :=
  l.cancelled = false ∧ ∃ start log, first.loops[j]? = some start ∧
    start.Lives first.clock log clock l ∧ ∀ t e, Sign.start t e ∈ log → Q j e

theorem Lived.wake (h : first.Lived Q clock j l) : first.Lived Q clock j (l.wake clock.uptime) := by
  obtain ⟨hasked, start, log, hstart, hlives, hlog⟩ := h
  exact ⟨by simpa using hasked, start, log, hstart, hlives.wake, hlog⟩

theorem Lived.wait {t : Span} (h : first.Lived Q clock j l) (hlater : clock.uptime ≤ t)
    (hnext : ∀ u, l.wakesAt? = some u → t ≤ u) : first.Lived Q (clock.at_ t) j l := by
  obtain ⟨hasked, start, log, hstart, hlives, hlog⟩ := h
  exact ⟨hasked, start, log, hstart, hlives.wait hlater hnext, hlog⟩

theorem Lived.goOn {e : Execution} (h : first.Lived Q clock j l) (he : Q j e)
    (hdue : ∀ t, l.wakesAt? = some t → t ≤ clock.uptime) :
    first.Lived Q clock j (l.goOn clock e) := by
  obtain ⟨hasked, start, log, hstart, hlives, hlog⟩ := h
  refine ⟨by simpa using hasked, ?_⟩
  unfold Loop.goOn
  cases hphase : l.phase with
  | unstarted => exact ⟨start, log, hstart, hlives, hlog⟩
  | ended => exact ⟨start, log, hstart, hlives, hlog⟩
  | sleeping t wakeable =>
    have ht := hdue t (by simp [Loop.wakesAt?, hphase])
    exact ⟨start, log, hstart, hlives.rise hphase ht, hlog⟩
  | executing t result offset =>
    have ht := hdue t (by simp [Loop.wakesAt?, hphase])
    refine ⟨start, _, hstart, hlives.endExecution hphase ht, ?_⟩
    intro u begun hbegun
    exact hlog u begun (by simpa using hbegun)
  | due t =>
    have ht := hdue t (by simp [Loop.wakesAt?, hphase])
    simp only [hasked, Bool.false_eq_true, if_false]
    refine ⟨start, _, hstart, hlives.run e hphase ht hasked, ?_⟩
    intro u begun hbegun
    rcases List.mem_append.1 hbegun with hnew | hold
    · obtain ⟨-, rfl⟩ := Execution.start_mem_signs.1 hnew
      exact he
    · exact hlog u begun hold

/-- In an event every loop goes on with its life. -/
theorem Lived.step {deadline : Span} (hworkers : ∀ j clock world, Q j (workers j clock world).1)
    (h : f.Each (first.Lived Q f.clock)) (hstep : f.step? workers deadline = some g) :
    g.Each (first.Lived Q g.clock) := by
  obtain ⟨i, l, t, hl, hat, -, hleast, rfl⟩ := step?_eq_some hstep
  rw [clock_goOn]
  have hreached : ({ f with clock := f.clock.reach t }).Each (first.Lived Q (f.clock.reach t)) := by
    intro j other hother
    unfold Clock.reach
    split
    · rename_i hless
      apply (h j other hother).wait (Int.le_of_lt hless)
      exact hleast other (List.mem_of_getElem? hother)
    · exact h j other hother
  apply hreached.goOn hl
  · intro u hu
    cases hat.symm.trans hu
    exact Clock.le_uptime_reach f.clock t
  · intro j l hl
    exact hl.wake
  · intro l hl hdue
    exact hl.goOn (hworkers i _ _) hdue

/-- However many events happen in a fleet whose workers are timely, every loop is healthy up to the
    next of them. -/
theorem healthy_up_to_next_event (clock : Clock) {settings : List Settings} {world : ω}
    (hpositive : ∀ s ∈ settings, 0 < s.interval)
    (hcountable : ∀ s ∈ settings, s.interval < .ofMillis (2 ^ 62))
    (hworkers : ∀ i s, settings[i]? = some s →
      ∀ clock world, (workers i clock world).1.Timely s.interval) (deadline : Span) (n : Nat) :
    let g := (create clock settings world).spawnAll.runEvents workers deadline n
    ∀ u, g.clock.uptime ≤ u → (∀ l ∈ g.loops, ∀ t, l.wakesAt? = some t → u ≤ t) →
      ∀ l ∈ g.loops, (l.health (g.clock.at_ u).now).healthy = true := by
  intro g u hlater hnext l hl
  let spawned := (create clock settings world).spawnAll
  let Q : Nat → Execution → Prop := fun i e => ∀ s, settings[i]? = some s → e.Timely s.interval
  have hspawned {j : Nat} {start : Loop} (hstart : spawned.loops[j]? = some start) :
      ∃ s, settings[j]? = some s ∧ (Loop.create s clock.now).spawn clock.uptime = start := by
    simpa [spawned, spawnAll, updateAll, create] using hstart
  have hlived : g.Each (spawned.Lived Q g.clock) := by
    apply runEvents_induction workers deadline (P := fun f => f.Each (spawned.Lived Q f.clock))
    · intro f f' hf hstep
      exact Lived.step (fun j clock world s hs => hworkers j s hs clock world) hf hstep
    · intro j start hstart
      obtain ⟨s, -, rfl⟩ := hspawned hstart
      exact ⟨rfl, _, [], hstart, .begin, by simp⟩
  obtain ⟨j, hj⟩ := List.mem_iff_getElem?.1 hl
  obtain ⟨hasked, start, log, hstart, hlives, hlog⟩ := (hlived j l hj).wait hlater (hnext l hl)
  obtain ⟨s, hs, rfl⟩ := hspawned hstart
  have hmem : s ∈ settings := List.mem_of_getElem? hs
  have halert := hlives.alert (.spawned s clock (hpositive s hmem)) (hcountable s hmem)
    (fun t e he => hlog t e he s hs) hasked
  apply halert.healthy
  rw [hlives.settings]
  exact hcountable s hmem

end Fleet

end Courier.Poll
