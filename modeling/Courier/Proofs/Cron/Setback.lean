/-
  Courier/Proofs/Cron/Setback.lean
  ================================
  **Occurrences while clocks are set back.**

  The search goes by what local clocks show, and of two instants at which they show
  the same it takes the earlier one.  Where clocks are set back they come to a reading
  again that they had come to before, so the search may answer with an instant that
  is past.  It does so only while clocks show such readings again, and goes back by
  less than clocks were set back, whatever the zone: `Job.forward_unless_set_back`.
  In a zone that never sets clocks back every occurrence is later than the instant it
  follows (`Job.advances_of_setsBackAtMost_zero`).
-/
import Courier.Proofs.Cron.Fire
import Courier.Proofs.Cron.Search
import Mathlib.Data.List.Sort

namespace Courier.Time

/-! ### How far clocks are set back -/

namespace ZoneEra

/-- The savings that may be in force during an era. -/
def savings (era : ZoneEra) : List Int := 0 :: era.rules.map (·.saving * 60)

theorem savingAt_mem_savings (era : ZoneEra) (second : Int) :
    era.savingAt second ∈ era.savings := by
  rcases era.savingAt_eq second with hnone | ⟨rule, hrule, hsome⟩
  · rw [hnone]
    exact List.mem_cons_self
  · rw [hsome]
    exact List.mem_cons_of_mem _ (List.mem_map_of_mem hrule)

/-- Whether clocks show in an era less than in another one by that many seconds at most. -/
def FallsAtMost (most : Int) (a b : ZoneEra) : Prop :=
  ∀ x ∈ a.savings, ∀ y ∈ b.savings, a.offset + x ≤ b.offset + y + most

instance (most : Int) (a b : ZoneEra) : Decidable (FallsAtMost most a b) :=
  inferInstanceAs (Decidable (∀ x ∈ a.savings, _))

end ZoneEra

namespace Zone

variable {zone : Zone} {most : Int}

/-- Whether clocks are never set back by more than that many seconds, all changes between two
    seconds taken together. -/
def SetsBackAtMost (zone : Zone) (most : Int) : Prop :=
  ∀ a b, a ≤ b → zone.offsetAt a ≤ zone.offsetAt b + most

/-- Of two elements that are found, the one that more elements qualify for is found no later. -/
theorem rel_of_find? {α : Type} {R : α → α → Prop} {p q : α → Bool} {x y : α} {l : List α}
    (hpq : ∀ z, q z = true → p z = true) (hpair : l.Pairwise R) (hself : ∀ z ∈ l, R z z)
    (hx : l.find? p = some x) (hy : l.find? q = some y) : R x y := by
  induction l with
  | nil => cases hx
  | cons z rest ih =>
    obtain ⟨hfirst, hrest⟩ := List.pairwise_cons.1 hpair
    rw [List.find?_cons] at hx hy
    cases hq : q z with
    | true =>
      rw [hpq z hq] at hx
      rw [hq] at hy
      rw [← Option.some.inj hx, ← Option.some.inj hy]
      exact hself z List.mem_cons_self
    | false =>
      rw [hq] at hy
      cases hp : p z with
      | true =>
        rw [hp] at hx
        cases hx
        exact hfirst y (List.mem_of_find?_eq_some hy)
      | false =>
        rw [hp] at hx
        exact ih hrest (fun other ho => hself other (List.mem_cons_of_mem _ ho)) hx hy

/-- It is enough to compare the eras of a zone, of which the last one must be open. -/
theorem setsBackAtMost_of_eras (hlast : ∃ era ∈ zone.eras, era.before = none)
    (hpair : zone.eras.Pairwise (ZoneEra.FallsAtMost most))
    (hself : ∀ era ∈ zone.eras, era.FallsAtMost most era) : zone.SetsBackAtMost most := by
  have hexists : ∀ second, ∃ era, zone.eraAt second = some era := by
    obtain ⟨era, hera, hopen⟩ := hlast
    intro second
    refine Option.isSome_iff_exists.1 (List.find?_isSome.2 ⟨era, hera, ?_⟩)
    rw [hopen]
    rfl
  intro a b hab
  obtain ⟨x, hx⟩ := hexists a
  obtain ⟨y, hy⟩ := hexists b
  have hfalls : x.FallsAtMost most y := by
    refine rel_of_find? (fun era hera => ?_) hpair hself hx hy
    cases hlimit : era.before with
    | none => rfl
    | some limit =>
      rw [hlimit] at hera
      exact decide_eq_true (Int.lt_of_le_of_lt hab (of_decide_eq_true hera))
  unfold offsetAt
  rw [hx, hy]
  exact hfalls _ (x.savingAt_mem_savings a) _ (y.savingAt_mem_savings b)

/-- Insertion sort can be evaluated in a proof, and the sort of the definition cannot. -/
theorem instants_eq_insertionSort (zone : Zone) (reading : Int) :
    zone.instants reading =
      ((zone.offsets.map (reading - ·)).filter fun second =>
        second + zone.offsetAt second = reading).insertionSort (· ≤ ·) :=
  List.mergeSort_eq_insertionSort (· ≤ ·) _

/-- What local clocks show at a second, in seconds. -/
def localAt (zone : Zone) (second : Int) : Int := second + zone.offsetAt second

/-- Whether local clocks show a reading at a second that they had come to before, as they do for a
    while after they are set back. -/
def ShowsAgain (zone : Zone) (second : Int) : Prop :=
  ∃ earlier, earlier < second ∧ zone.localAt second ≤ zone.localAt earlier

/-- Where clocks are set back by so many seconds at most, what they show again they showed within as
    many seconds, and they have been set back since. -/
theorem SetsBackAtMost.of_showsAgain (h : zone.SetsBackAtMost most) {second : Int}
    (hagain : zone.ShowsAgain second) :
    ∃ earlier, second - most ≤ earlier ∧ earlier < second ∧
      zone.offsetAt second < zone.offsetAt earlier := by
  obtain ⟨earlier, hbefore, hlocal⟩ := hagain
  have hmost := h earlier second (by omega)
  unfold localAt at hlocal
  exact ⟨earlier, by omega, hbefore, by omega⟩

end Zone

end Courier.Time

namespace Courier.Cron

open Courier.Time

namespace Job

variable {config : JobConfig} {registry : Registry} {job : Job} {last next now : Instant}

/-- An occurrence is later than the instant that it follows, or clocks were set back since then by
    more than the time between the two. -/
theorem setBack_of_nextOccurrence (hfits : job.schedule.Fits)
    (h : job.nextOccurrence last = some next) (hpast : ¬ last < next) :
    next.seconds ≤ last.seconds ∧
      last.seconds - next.seconds <
        job.zone.offsetAt next.seconds - job.zone.offsetAt (last.seconds + 1) := by
  have hlocal := Schedule.local_le_of_next hfits h
  have hle : next.seconds ≤ last.seconds := by
    rw [Instant.lt_iff] at hpast
    simp only [Instant.seconds]
    omega
  exact ⟨hle, by omega⟩

/-- An occurrence that is not later than the instant it follows is one at a reading that clocks come
    to again. -/
theorem showsAgain_of_nextOccurrence (hfits : job.schedule.Fits)
    (h : job.nextOccurrence last = some next) (hpast : ¬ last < next) :
    job.zone.ShowsAgain (last.seconds + 1) := by
  obtain ⟨hle, -⟩ := setBack_of_nextOccurrence hfits h hpast
  exact ⟨next.seconds, by omega, Schedule.local_le_of_next hfits h⟩

/-- Where clocks are set back by so many seconds at most, no occurrence is as many seconds before
    the instant that it follows. -/
theorem lt_of_setsBackAtMost (hfits : job.schedule.Fits) {most : Int}
    (hzone : job.zone.SetsBackAtMost most) (h : job.nextOccurrence last = some next) :
    last < next + Span.ofSeconds most := by
  have hpositive := hzone 0 0 (Int.le_refl 0)
  rw [Instant.lt_iff]
  simp only [Instant.nanos_add, Span.ofSeconds]
  by_cases hpast : last < next
  · rw [Instant.lt_iff] at hpast
    omega
  · obtain ⟨hle, hback⟩ := setBack_of_nextOccurrence hfits h hpast
    have hmost := hzone next.seconds (last.seconds + 1) (by omega)
    simp only [Instant.seconds] at hle hback hmost
    omega

/-- Where clocks are never set back, the occurrences of a job advance. -/
theorem advances_of_setsBackAtMost_zero (hfits : job.schedule.Fits)
    (hzone : job.zone.SetsBackAtMost 0) : job.Advances := by
  intro last next h
  by_contra hpast
  obtain ⟨hle, hback⟩ := setBack_of_nextOccurrence hfits h hpast
  have hmost := hzone next.seconds (last.seconds + 1) (by omega)
  omega

/-- A number of occurrences, each of which follows the one before it. -/
def occurrences (job : Job) : Nat → Instant → List Instant
  | 0, _ => []
  | n + 1, last =>
    match job.nextOccurrence last with
    | none => []
    | some next => next :: job.occurrences n next

/-- If each occurrence after an instant of some kind is later than it, and all are of that kind,
    they ascend. -/
theorem pairwise_occurrences {P : Instant → Prop}
    (h : ∀ last next, job.nextOccurrence last = some next → P last → last < next) (n : Nat)
    {last : Instant} (hall : ∀ at_ ∈ last :: job.occurrences n last, P at_) :
    (last :: job.occurrences n last).Pairwise (· < ·) := by
  induction n generalizing last with
  | zero => exact List.pairwise_singleton _ last
  | succ n ih =>
    unfold occurrences at hall ⊢
    cases hnext : job.nextOccurrence last with
    | none => exact List.pairwise_singleton _ last
    | some next =>
      rw [hnext] at hall
      obtain ⟨hlast, hrest⟩ := List.forall_mem_cons.1 hall
      have hlt := h last next hnext hlast
      have hafter := ih hrest
      refine List.pairwise_cons.2 ⟨fun at_ hat => ?_, hafter⟩
      rcases List.mem_cons.1 hat with rfl | hat
      · exact hlt
      · exact Int.lt_trans hlt ((List.pairwise_cons.1 hafter).1 at_ hat)

/-- Of every validated job, whatever its time zone: an occurrence is later than the instant that it
    follows, unless clocks show again then what they had shown before; if it is not later, it is
    earlier by less than clocks were set back in between, so by less than the zone ever sets them
    back, and they were set back no longer ago than that.  So the occurrences that follow one
    another ascend as long as none of them comes while clocks show readings again, and a job that
    has just fired at another time is not due again. -/
theorem forward_unless_set_back (hjob : ofConfig config registry = .ok job) :
    (∀ last next, job.nextOccurrence last = some next →
      (¬ job.zone.ShowsAgain (last.seconds + 1) → last < next) ∧
      (¬ last < next → last.seconds - next.seconds <
        job.zone.offsetAt next.seconds - job.zone.offsetAt (last.seconds + 1)) ∧
      job.zone.localAt (last.seconds + 1) ≤ job.zone.localAt next.seconds ∧
      ∀ most, job.zone.SetsBackAtMost most → last < next + Span.ofSeconds most ∧
        (¬ last < next → ∃ earlier, last.seconds + 1 - most ≤ earlier ∧ earlier ≤ last.seconds ∧
          job.zone.offsetAt (last.seconds + 1) < job.zone.offsetAt earlier)) ∧
    (∀ n last, (∀ at_ ∈ last :: job.occurrences n last,
        ¬ job.zone.ShowsAgain (at_.seconds + 1)) →
      (last :: job.occurrences n last).Pairwise (· < ·)) ∧
    ∀ now, ¬ job.zone.ShowsAgain (now.seconds + 1) → job.due? now now = none := by
  obtain ⟨-, -, hfits⟩ := ofConfig_spec hjob
  have hforward : ∀ last next, job.nextOccurrence last = some next →
      ¬ job.zone.ShowsAgain (last.seconds + 1) → last < next := by
    intro last next h hsteady
    by_contra hpast
    exact hsteady (showsAgain_of_nextOccurrence hfits h hpast)
  refine ⟨fun last next h => ⟨hforward last next h, ?_, Schedule.local_le_of_next hfits h, ?_⟩,
    ?_, ?_⟩
  · exact fun hpast => (setBack_of_nextOccurrence hfits h hpast).2
  · intro most hzone
    refine ⟨lt_of_setsBackAtMost hfits hzone h, fun hpast => ?_⟩
    obtain ⟨earlier, hwithin, hbefore, hback⟩ :=
      hzone.of_showsAgain (showsAgain_of_nextOccurrence hfits h hpast)
    exact ⟨earlier, hwithin, by omega, hback⟩
  · exact fun n last hsteady => pairwise_occurrences hforward n hsteady
  · intro now hsteady
    rw [Option.eq_none_iff_forall_ne_some]
    intro next hdue
    obtain ⟨hnext, hlt⟩ := due?_eq_some.1 hdue
    exact absurd (Int.lt_trans (hforward now next hnext hsteady) hlt) (Int.lt_irrefl _)

/-- A job that is due every second, by the clocks of Berlin. -/
def everySecondInBerlin : JobConfig where
  name := "tick"
  url := "http://localhost/tick?at=\x7b0\x7d"
  schedule := "* * * * * *"
  timezone := some "Europe/Berlin"

/-- On 2024-10-27 clocks in Berlin were set back at one o'clock universal time.  The second before
    is followed by an occurrence an hour earlier, and a job that fires ten minutes and a half after
    is due again at once, for an occurrence that is past. -/
theorem berlin_runs_an_hour_again :
    let last : Instant := .ofSeconds 1729990799
    let next : Instant := .ofSeconds 1729987200
    let fired : Instant := .ofSeconds 1729991430
    ∃ job, ofConfig everySecondInBerlin .builtin = .ok job ∧
      job.nextOccurrence last = some next ∧ next < last ∧
      job.zone.ShowsAgain (last.seconds + 1) ∧ job.zone.SetsBackAtMost 3600 ∧
      last < next + Span.ofSeconds 3600 ∧
      job.due? fired fired = some (.ofSeconds 1729987831) := by
  intro last next fired
  have hrun : (ofConfig everySecondInBerlin .builtin).toOption.map
      (fun job => (job.nextOccurrence last, job.due? fired fired)) =
        some (some next, some (.ofSeconds 1729987831)) := by
    simp only [due?, nextOccurrence, Schedule.next, Schedule.firstFrom, Schedule.firstOfDay,
      Schedule.instantsOf, Zone.instants_eq_insertionSort]
    decide +kernel
  obtain ⟨job, hok, hanswers⟩ := Option.map_eq_some_iff.1 hrun
  obtain ⟨hnext, hdue⟩ := Prod.mk.inj hanswers
  have hjob : ofConfig everySecondInBerlin .builtin = .ok job := by
    cases h : ofConfig everySecondInBerlin .builtin with
    | error e =>
      rw [h] at hok
      cases hok
    | ok other =>
      rw [h] at hok
      cases hok
      rfl
  have hmost : job.zone.SetsBackAtMost 3600 := by
    have heras : ∀ zone ∈ Zone.ofName? (Text.trimmed "Europe/Berlin"),
        (∃ era ∈ zone.eras, era.before = none) ∧
          zone.eras.Pairwise (ZoneEra.FallsAtMost 3600) ∧
          ∀ era ∈ zone.eras, era.FallsAtMost 3600 era := by
      decide +kernel
    obtain ⟨-, -, -, -, hzone⟩ := ofConfig_eq_ok hjob
    obtain ⟨hlast, hpair, hself⟩ := heras job.zone hzone
    exact Zone.setsBackAtMost_of_eras hlast hpair hself
  obtain ⟨hforward, -, -, hnear⟩ := (forward_unless_set_back hjob).1 last next hnext
  have hback : next < last := by decide
  have hagain : job.zone.ShowsAgain (last.seconds + 1) := by
    by_contra hsteady
    exact absurd (Int.lt_trans (hforward hsteady) hback) (Int.lt_irrefl _)
  exact ⟨job, hjob, hnext, hback, hagain, hmost, (hnear 3600 hmost).1, hdue⟩

end Job

end Courier.Cron
