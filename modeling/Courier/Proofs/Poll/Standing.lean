/-
  Courier/Proofs/Poll/Standing.lean
  =================================
  **The health of loops that have ended.**

  A loop that has ended is unhealthy and says that it stopped, for as long as its
  worker is not executed directly.  A direct execution records itself as if the loop
  ran: from its end on the loop is shown as idle, and is healthy until its interval
  is over.  `Loop.Settled` is what stands still in the meantime.
-/
import Courier.Proofs.Poll.Course
import Courier.Store.Backend
import Courier.Supervisor

namespace Courier

namespace Poll

open Courier.Time

/-- The last end of an execution is a sign of life. -/
theorem LoopStatus.le_reference {s : LoopStatus} {t : Instant} (h : s.lastFinished = some t) :
    t ≤ s.reference :=
  (LoopStatus.reference_le_iff.1 (Int.le_refl _)).2.2 t h

namespace Loop

/-- A loop that has ended, and what is shown of it. -/
structure Settled (settings : Settings) (P : LoopStatus → Prop) (l : Loop) : Prop where
  phase : l.phase = .ended
  settings : l.settings = settings
  status : P l.status

variable {l : Loop} {settings : Settings} {P : LoopStatus → Prop}

theorem Settled.wake (h : l.Settled settings P) (uptime : Span) :
    (l.wake uptime).Settled settings P := by
  rw [Loop.wake_of_busy l uptime (by simp [h.phase])]
  exact ⟨h.phase, h.settings, h.status⟩

theorem Settled.cancel (h : l.Settled settings P) (uptime : Span) :
    (l.cancel uptime).Settled settings P := by
  unfold Loop.cancel
  simp only [h.phase]
  exact ⟨rfl, h.settings, h.status⟩

theorem Settled.goOn (h : l.Settled settings P) (clock : Clock) (execution : Execution) :
    (l.goOn clock execution).Settled settings P := by
  unfold Loop.goOn
  rw [h.phase]
  exact h

end Loop

namespace Fleet

variable {ω : Type} {workers : Workers ω} {pending : ω → Nat} {f : Fleet ω} {i : Nat}
  {settings : Settings} {P : LoopStatus → Prop}

theorem enduring_settled (i : Nat) (settings : Settings) (P : LoopStatus → Prop) :
    Enduring fun _ j l => i = j → l.Settled settings P where
  later := fun _ _ h => h
  wake := fun h hij => (h hij).wake _
  goOn := fun execution h _ hij => (h hij).goOn _ execution

/-- No call but a spawn makes a loop run that has ended, and none but a direct execution of its
    worker changes what is shown of it. -/
theorem settled_course {calls : List (Span × Call)} (hspawn : ∀ t, (t, .spawn) ∉ calls)
    (hexecute : (∃ t, (t, .execute i) ∈ calls) →
      ∀ s now, P s → P (s.started now) ∧ P (s.finished now))
    (h : f.Each fun j l => i = j → l.Settled settings P) :
    (f.course workers pending calls).Each fun j l => i = j → l.Settled settings P := by
  apply (enduring_settled i settings P).course calls _ _ _ h
  · rintro ⟨t, ht⟩
    exact absurd ht (hspawn t)
  · intro _ clock j l hl hij
    exact (hl hij).cancel clock.uptime
  · rintro j hj clock l hl
    by_cases hij : i = j
    · subst hij
      obtain ⟨hphase, hsettings, hstatus⟩ := hl rfl
      obtain ⟨hstarted, hfinished⟩ := hexecute hj l.status clock.now hstatus
      exact ⟨fun _ => ⟨hphase, hsettings, hstarted⟩, fun _ => ⟨hphase, hsettings, hfinished⟩⟩
    · exact ⟨fun h => absurd h hij, fun h => absurd h hij⟩

/-- A direct execution of the worker of a loop that has ended records itself as if the loop ran. -/
theorem settled_execute (n : Nat)
    (h : f.Each fun j l => i = j → l.Settled settings fun _ => True) :
    (f.execute workers i n).2.Each fun j l => i = j → l.Settled settings fun s =>
      s.state = .idle ∧ s.lastFinished = some (f.execute workers i n).2.clock.now := by
  have hworked := (enduring_settled i settings fun _ => True).working workers i n h (by
    intro l hl _
    obtain ⟨hphase, hsettings, -⟩ := h i l hl rfl
    exact ⟨hphase, hsettings, trivial⟩)
  intro j l' hl' hij
  subst hij
  rw [execute_snd, getElem?_updateLoop, Option.map_eq_some_iff] at hl'
  obtain ⟨l, hl, rfl⟩ := hl'
  rw [if_pos rfl]
  obtain ⟨hphase, hsettings, -⟩ := hworked i l hl rfl
  exact ⟨hphase, hsettings, rfl, rfl⟩

end Fleet

/-- **The health of a loop that has ended.**  As long as its worker is not executed directly, the
    loop is unhealthy and says that it stopped.  If it is, the loop has not started again, but it
    says that it is idle, and it is healthy until its interval has passed since that execution. -/
theorem health_of_ended_loop {ω : Type} (workers : Workers ω) (pending : ω → Nat) (f : Fleet ω)
    (i : Nat) (l : Loop) (calls : List (Span × Call)) (uptime : Span)
    (hl : f.loops[i]? = some l) (hended : l.phase = .ended)
    (hstopped : l.status.state = .stopped) (hspawn : ∀ t, (t, .spawn) ∉ calls) :
    let g := (f.course workers pending calls).passTo workers pending uptime
    ∃ l', g.loops[i]? = some l' ∧ l'.phase = .ended ∧ l'.settings = l.settings ∧
      ((∀ t, (t, .execute i) ∉ calls) →
        (l'.health g.clock.now).healthy = false ∧
        (l'.health g.clock.now).state = "stopped" ∧ l'.status = l.status) ∧
      ∀ before t after, calls = before ++ (t, .execute i) :: after →
        (∀ u, (u, .execute i) ∉ after) →
        let executed := f.course workers pending (before ++ [(t, .execute i)])
        (l'.health g.clock.now).state = "idle" ∧
          (l'.health g.clock.now).healthy =
            decide (g.clock.now - l'.status.reference ≤ allowance l.settings.interval) ∧
          (g.clock.now - executed.clock.now ≤ allowance l.settings.interval →
            (l'.health g.clock.now).healthy = true) := by
  intro g
  have hself (P : LoopStatus → Prop) (hP : P l.status) :
      f.Each fun j l' => i = j → l'.Settled l.settings P := by
    rintro j l' hl' rfl
    cases hl.symm.trans hl'
    exact ⟨hended, rfl, hP⟩
  have hi : i < g.loops.length := by
    rw [Fleet.length_passTo, Fleet.length_course]
    exact (List.getElem?_eq_some_iff.1 hl).1
  have hl' : g.loops[i]? = some g.loops[i] := List.getElem?_eq_getElem hi
  have hsettled (P : LoopStatus → Prop)
      (h : (f.course workers pending calls).Each fun j l' => i = j → l'.Settled l.settings P) :
      (g.loops[i]).Settled l.settings P :=
    (Fleet.enduring_settled i l.settings P).passTo uptime h i _ hl' rfl
  obtain ⟨hphase, hsettings, -⟩ := hsettled (fun _ => True)
    (Fleet.settled_course hspawn (fun _ _ _ _ => ⟨trivial, trivial⟩) (hself _ trivial))
  refine ⟨g.loops[i], hl', hphase, hsettings, ?_, ?_⟩
  · intro hnone
    have hstatus := (hsettled (· = l.status) (Fleet.settled_course hspawn
      (fun ⟨t, ht⟩ => absurd ht (hnone t)) (hself _ rfl))).status
    simp [Loop.health, hstatus, hstopped, LoopState.name]
  · intro before t after hcalls hlast executed
    -- The record stands from the end of the last direct execution on.
    have hbefore : ((f.course workers pending before).passTo workers pending t).Each fun j l' =>
        i = j → l'.Settled l.settings fun _ => True := by
      apply (Fleet.enduring_settled i l.settings _).passTo t
      apply Fleet.settled_course _ (fun _ _ _ _ => ⟨trivial, trivial⟩) (hself _ trivial)
      intro u hu
      exact hspawn u (by simp [hcalls, hu])
    have hexecuted : executed.Each fun j l' => i = j → l'.Settled l.settings fun s =>
        s.state = .idle ∧ s.lastFinished = some executed.clock.now := by
      unfold executed
      rw [Fleet.course_append]
      exact Fleet.settled_execute _ hbefore
    obtain ⟨-, -, hidle, hfinished⟩ := hsettled _ (by
      rw [hcalls, List.append_cons, Fleet.course_append]
      apply Fleet.settled_course _ _ hexecuted
      · intro u hu
        exact hspawn u (by simp [hcalls, hu])
      · rintro ⟨u, hu⟩
        exact absurd hu (hlast u))
    have hhealthy : ((g.loops[i]).health g.clock.now).healthy =
        decide (g.clock.now - (g.loops[i]).status.reference ≤ allowance l.settings.interval) := by
      simp [Loop.health, hidle, hsettings]
    refine ⟨by simp [Loop.health, hidle, LoopState.name], hhealthy, ?_⟩
    intro hrecent
    rw [hhealthy, decide_eq_true_iff]
    have hsign := LoopStatus.le_reference hfinished
    simp only [Span.le_iff, Instant.le_iff, Instant.nanos_sub_instant] at *
    omega

/-- A service that was started, ran for a second and was shut down. -/
def shutDownService : Supervisor Store :=
  let service := Supervisor.create {} { origin := ⟨0⟩ } (Store.empty .single)
  (service.start.pass (.ofSeconds 1)).shutdown

/-- Shut down, the service is unhealthy.  Once its consumer was run directly it is healthy, although
    its loop has ended. -/
theorem shut_down_service_gets_healthy :
    shutDownService.health.healthy = false ∧
      (∃ l, (shutDownService.executeConsumer 0).2.fleet.loops = [l] ∧ l.phase = .ended ∧
        (l.health (.ofSeconds 1)).state = "idle" ∧ (l.health (.ofSeconds 1)).healthy = true) ∧
      (shutDownService.executeConsumer 0).2.health.healthy = true := by
  refine ⟨by decide +kernel, ?_, by decide +kernel⟩
  obtain ⟨l', hl', hended, -, -, hexecuted⟩ := health_of_ended_loop
    (Supervisor.workers shutDownService.settings) (fun _ => 0) shutDownService.fleet 0 _
    [(.ofSeconds 1, .execute 0)] (.ofSeconds 1) rfl rfl rfl (by simp)
  obtain ⟨hidle, -, hhealthy⟩ := hexecuted [] (.ofSeconds 1) [] rfl (by simp)
  have hloops : (shutDownService.executeConsumer 0).2.fleet.loops = [l'] :=
    congrArg (·.toList) hl'
  exact ⟨l', hloops, hended, hidle, hhealthy (by decide +kernel)⟩

end Poll

end Courier
