/-
  Courier/Proofs/Cron/Search.lean
  ===============================
  **What the search for the next occurrence finds.**

  The search finds a reading that the schedule allows and that does not come before
  the one from which it starts, and answers with the first instant at which local
  clocks show it (`Schedule.firstFrom_eq_some`).  So local clocks never show less at
  the occurrence that follows an instant than they do one second after the instant
  (`Schedule.local_le_of_next`); where clocks never change, the occurrence is later
  than the instant (`Schedule.lt_next_of_steady`).
-/
import Courier.Cron.Job
import Courier.Proofs.Time.Calendar

namespace Courier.Cron

open Courier.Time

/-! ### What is still ahead -/

theorem mem_ahead {values : List Nat} {first : Option Nat} {value : Nat} :
    value ∈ ahead values first ↔ value ∈ values ∧ ∀ least, first = some least → least ≤ value := by
  cases first with
  | none => simp [ahead]
  | some least => simp [ahead]

theorem firstBelow_eq_some {first : Option Nat} {value next least : Nat} :
    firstBelow first value next = some least ↔ first = some value ∧ next = least := by
  unfold firstBelow
  split <;> simp_all

/-! ### The values of a field -/

theorem FieldKind.bounds_of_mem_all {k : FieldKind} {n : Nat} (h : n ∈ k.all) :
    k.least ≤ n ∧ n ≤ k.greatest := by
  unfold FieldKind.all FieldKind.span at h
  rw [List.mem_range'_1] at h
  omega

theorem FieldKind.subset_of_read? {k : FieldKind} {cs rest : List Char} {values : List Nat}
    (h : k.read? cs = some (values, rest)) : ∀ n ∈ values, k.least ≤ n ∧ n ≤ k.greatest := by
  unfold FieldKind.read? at h
  obtain ⟨⟨items, after⟩, -, h⟩ := Option.bind_eq_some_iff.1 h
  obtain ⟨read, hread, h⟩ := Option.bind_eq_some_iff.1 h
  unfold FieldKind.values? at hread
  obtain ⟨lists, -, hread⟩ := Option.bind_eq_some_iff.1 hread
  cases h
  cases hread
  intro n hn
  exact bounds_of_mem_all (List.mem_filter.1 hn).1

namespace Schedule

variable {s : Schedule} {zone : Zone} {date : Date} {next last : Instant}

/-- Whether the schedule allows a time of day. -/
structure AllowsTime (s : Schedule) (c : Civil) : Prop where
  hour : c.hour ∈ s.hours
  minute : c.minute ∈ s.minutes
  second : c.second ∈ s.seconds

/-- Whether the schedule allows a date, which must exist. -/
structure AllowsDate (s : Schedule) (date : Date) : Prop where
  year : ∃ year ∈ s.years, date.year = year
  month : date.month ∈ s.months
  day : date.day ∈ s.days
  weekday : s.allowsWeekday date = true
  inMonth : date.day ≤ daysInMonth date.year date.month

/-- The instants at which local clocks show a reading, earliest first. -/
def instantsAt (zone : Zone) (c : Civil) : List Instant :=
  instantsOf zone c.date c.hour c.minute c.second

theorem mem_instantsAt (zone : Zone) (c : Civil) (t : Instant) :
    t ∈ instantsAt zone c ↔
      ∃ second, t = .ofSeconds second ∧ second + zone.offsetAt second = c.toSeconds := by
  unfold instantsAt instantsOf
  rw [List.mem_map]
  constructor
  · rintro ⟨second, hsecond, rfl⟩
    exact ⟨second, rfl, (zone.mem_instants_iff _ _).1 hsecond⟩
  · rintro ⟨second, rfl, hlocal⟩
    exact ⟨second, (zone.mem_instants_iff _ _).2 hlocal, rfl⟩

/-- The first occurrence of a day is at a time that the schedule allows and, on the day on which
    the search begins, not before the time from which it starts. -/
theorem firstOfDay_eq_some {first : Option Civil} (h : s.firstOfDay zone date first = some next) :
    ∃ c : Civil, c.date = date ∧ s.AllowsTime c ∧ (instantsAt zone c).head? = some next ∧
      ∀ t, first = some t → t.hour < c.hour ∨ t.hour = c.hour ∧
        (t.minute < c.minute ∨ t.minute = c.minute ∧ t.second ≤ c.second) := by
  unfold firstOfDay at h
  obtain ⟨hour, hhour, h⟩ := List.exists_of_findSome?_eq_some h
  obtain ⟨minute, hminute, h⟩ := List.exists_of_findSome?_eq_some h
  obtain ⟨second, hsecond, h⟩ := List.exists_of_findSome?_eq_some h
  rw [mem_ahead] at hhour hminute hsecond
  refine ⟨⟨date, hour, minute, second, 0⟩, rfl, ⟨hhour.1, hminute.1, hsecond.1⟩, h, ?_⟩
  rintro t rfl
  dsimp only
  have hhour' : t.hour ≤ hour := hhour.2 t.hour rfl
  have hminute' : t.hour = hour → t.minute ≤ minute := by
    intro heq
    exact hminute.2 t.minute (firstBelow_eq_some.2 ⟨congrArg some heq, rfl⟩)
  have hsecond' : t.hour = hour → t.minute = minute → t.second ≤ second := by
    intro heq heq'
    have hfirst : firstBelow (some t.hour) hour t.minute = some minute :=
      firstBelow_eq_some.2 ⟨congrArg some heq, heq'⟩
    exact hsecond.2 t.second (firstBelow_eq_some.2 ⟨hfirst, rfl⟩)
  omega

/-- The search finds a reading that the schedule allows and that is not before the one from which
    it starts, and answers with the first instant at which local clocks show it. -/
theorem firstFrom_eq_some {t : Civil} (h : s.firstFrom zone t = some next) :
    ∃ c : Civil, s.AllowsDate c.date ∧ s.AllowsTime c ∧ c.NotBefore t ∧
      (instantsAt zone c).head? = some next := by
  unfold firstFrom at h
  obtain ⟨year, hyear, h⟩ := List.exists_of_findSome?_eq_some h
  obtain ⟨month, hmonth, h⟩ := List.exists_of_findSome?_eq_some h
  obtain ⟨day, hday, h⟩ := List.exists_of_findSome?_eq_some h
  rw [List.mem_filter, decide_eq_true_eq] at hday
  obtain ⟨hday, hinMonth⟩ := hday
  rw [mem_ahead] at hyear hmonth hday
  dsimp only at h
  split at h
  · rename_i hweekday
    obtain ⟨c, hdate, htime, hhead, hnot⟩ := firstOfDay_eq_some h
    refine ⟨c, hdate ▸ ⟨⟨year, hyear.1, rfl⟩, hmonth.1, hday.1, hweekday, hinMonth⟩, htime, ?_,
      hhead⟩
    have hyear' : t.date.year.toNat ≤ year := hyear.2 _ rfl
    have hmonth' : t.date.year.toNat = year → t.date.month ≤ month := by
      intro heq
      exact hmonth.2 _ (firstBelow_eq_some.2 ⟨congrArg some heq, rfl⟩)
    have hfirst : t.date.year.toNat = year → t.date.month = month →
        firstBelow (some t.date.year.toNat) year t.date.month = some month := by
      intro heq heq'
      exact firstBelow_eq_some.2 ⟨congrArg some heq, heq'⟩
    have hday' : t.date.year.toNat = year → t.date.month = month → t.date.day ≤ day := by
      intro heq heq'
      exact hday.2 _ (firstBelow_eq_some.2 ⟨hfirst heq heq', rfl⟩)
    unfold Civil.NotBefore Date.Precedes
    rw [hdate]
    by_cases hlater : t.date.year < year ∨
        t.date.year = year ∧ (t.date.month < month ∨ t.date.month = month ∧ t.date.day < day)
    · exact Or.inl hlater
    · -- the search is on the day of the reading from which it starts
      have hsame : t.date.year = year ∧ t.date.month = month ∧ t.date.day = day := by omega
      obtain ⟨hy, hm, hd⟩ := hsame
      have hnat : t.date.year.toNat = year := by omega
      refine Or.inr ⟨?_, hnot t ?_⟩
      · rw [← hy, ← hm, ← hd]
      · exact if_pos (firstBelow_eq_some.2 ⟨hfirst hnat hm, hd⟩)
  · cases h

/-! ### Schedules that can be written down -/

/-- Whether the values of a schedule are ones that a calendar and a clock show. -/
structure Fits (s : Schedule) : Prop where
  seconds : ∀ second ∈ s.seconds, second ≤ 59
  minutes : ∀ minute ∈ s.minutes, minute ≤ 59
  hours : ∀ hour ∈ s.hours, hour ≤ 23
  days : ∀ day ∈ s.days, 1 ≤ day
  months : ∀ month ∈ s.months, 1 ≤ month ∧ month ≤ 12

theorem Fits.valid (h : s.Fits) (hdate : s.AllowsDate date) : date.Valid :=
  ⟨(h.months _ hdate.month).1, (h.months _ hdate.month).2, h.days _ hdate.day, hdate.inMonth⟩

theorem Fits.onClock (h : s.Fits) {c : Civil} (htime : s.AllowsTime c) : c.OnClock :=
  ⟨h.hours _ htime.hour, h.minutes _ htime.minute, h.seconds _ htime.second⟩

theorem fits_of_ofFields? {cs : List Char} {s : Schedule} (h : ofFields? cs = some s) : s.Fits := by
  unfold ofFields? at h
  obtain ⟨⟨seconds, cs⟩, hseconds, h⟩ := Option.bind_eq_some_iff.1 h
  obtain ⟨⟨minutes, cs⟩, hminutes, h⟩ := Option.bind_eq_some_iff.1 h
  obtain ⟨⟨hours, cs⟩, hhours, h⟩ := Option.bind_eq_some_iff.1 h
  obtain ⟨⟨days, cs⟩, hdays, h⟩ := Option.bind_eq_some_iff.1 h
  obtain ⟨⟨months, cs⟩, hmonths, h⟩ := Option.bind_eq_some_iff.1 h
  obtain ⟨⟨weekdays, cs⟩, -, h⟩ := Option.bind_eq_some_iff.1 h
  obtain ⟨-, -, h⟩ := Option.bind_eq_some_iff.1 h
  cases h
  exact {
    seconds := fun second h => (FieldKind.subset_of_read? hseconds second h).2
    minutes := fun minute h => (FieldKind.subset_of_read? hminutes minute h).2
    hours := fun hour h => (FieldKind.subset_of_read? hhours hour h).2
    days := fun day h => (FieldKind.subset_of_read? hdays day h).1
    months := FieldKind.subset_of_read? hmonths }

theorem fits_of_ofKeyword? {keyword : List Char} {s : Schedule} (h : ofKeyword? keyword = some s) :
    s.Fits := by
  have hdaily : Fits {
      seconds := [0]
      minutes := [0]
      hours := [0]
      days := FieldKind.days.all
      months := FieldKind.months.all
      weekdays := FieldKind.weekdays.all
      years := FieldKind.years.all } := by
    constructor <;> decide
  unfold ofKeyword? at h
  dsimp only at h
  split at h
  · cases h
    exact { hdaily with days := by decide, months := by decide }
  split at h
  · cases h
    exact { hdaily with days := by decide }
  split at h
  · cases h
    exact { hdaily with }
  split at h
  · cases h
    exact hdaily
  split at h
  · cases h
    exact { hdaily with hours := by decide }
  · cases h

theorem fits_of_parse? {text : String} {s : Schedule} (h : parse? text = some s) : s.Fits := by
  unfold parse? at h
  dsimp only at h
  rcases Option.or_eq_some_iff.1 h with h | ⟨-, h⟩
  · exact fits_of_ofKeyword? h
  · exact fits_of_ofFields? h

/-! ### The next occurrence -/

/-- An occurrence is at a whole second. -/
theorem next_isSecond (h : s.next zone last = some next) :
    ∃ second, next = .ofSeconds second := by
  obtain ⟨c, -, -, -, hhead⟩ := firstFrom_eq_some h
  obtain ⟨second, heq, -⟩ := (mem_instantsAt zone c next).1 (List.mem_of_mem_head? hhead)
  exact ⟨second, heq⟩

/-- At the occurrence that follows an instant local clocks show no less than they do one second
    after the instant. -/
theorem local_le_of_next (hs : s.Fits) (h : s.next zone last = some next) :
    last.seconds + 1 + zone.offsetAt (last.seconds + 1) ≤
      next.seconds + zone.offsetAt next.seconds := by
  obtain ⟨c, hdate, htime, hnot, hhead⟩ := firstFrom_eq_some h
  obtain ⟨second, rfl, hlocal⟩ := (mem_instantsAt zone c next).1 (List.mem_of_mem_head? hhead)
  have hsecond : (Instant.ofSeconds second).seconds = second := by
    simp only [Instant.seconds, Instant.ofSeconds]
    omega
  have hstart := Civil.toSeconds_ofSeconds
    (last.seconds + 1 + zone.offsetAt (last.seconds + 1)) 0
  have hle := Civil.toSeconds_le_of_notBefore (Date.valid_ofDays _) (Civil.onClock_ofSeconds _ 0)
    (hs.valid hdate) (hs.onClock htime) hnot
  rw [hsecond, hlocal]
  exact hstart ▸ hle

/-- Where clocks never change, the occurrence that follows an instant is later than the instant. -/
theorem lt_next_of_steady (hs : s.Fits) (hzone : ∀ a b, zone.offsetAt a = zone.offsetAt b)
    (h : s.next zone last = some next) : last < next := by
  have hle := local_le_of_next hs h
  rw [hzone (last.seconds + 1) next.seconds] at hle
  simp only [Instant.seconds] at hle
  rw [Instant.lt_iff]
  omega

theorem offsetAt_fixed (name : String) (minutes second : Int) :
    (Zone.fixed name minutes).offsetAt second = minutes * 60 := by
  simp [Zone.offsetAt, Zone.eraAt, Zone.fixed, ZoneEra.savingAt, ZoneEra.changes, latestChange?]

theorem lt_next_of_fixed (hs : s.Fits) {name : String} {minutes : Int}
    (h : s.next (.fixed name minutes) last = some next) : last < next := by
  refine lt_next_of_steady hs (fun a b => ?_) h
  rw [offsetAt_fixed, offsetAt_fixed]

end Schedule

/-! ### Validated jobs -/

namespace Job

variable {registry : Registry}

/-- What a validation that succeeds establishes. -/
theorem ofConfig_eq_ok {config : JobConfig} {job : Job} (h : ofConfig config registry = .ok job) :
    job.name = config.name ∧ job.url = config.url ∧
      (∃ url, Url.parse config.url registry.toAscii = .ok url ∧ url.isHttp = true) ∧
      Schedule.parse? config.schedule = some job.schedule ∧
      config.timezone.elim (some .utc) (fun raw => registry.zone? (Text.trimmed raw)) =
        some job.zone := by
  simp only [ofConfig, bind, Except.bind] at h
  split at h
  · rename_i url hurl
    split at h
    · rename_i hhttp
      split at h
      · rename_i schedule hschedule
        split at h
        · rename_i hutc
          cases h
          exact ⟨rfl, rfl, ⟨url, hurl, hhttp⟩, hschedule, by rw [hutc]; rfl⟩
        · rename_i raw hraw
          split at h
          · rename_i zone hzone
            cases h
            exact ⟨rfl, rfl, ⟨url, hurl, hhttp⟩, hschedule, by rw [hraw]; exact hzone⟩
          · cases h
      · cases h
    · cases h
  · cases h

/-- A validated job has a URL, and its schedule is one that can be written down. -/
theorem ofConfig_spec {config : JobConfig} {job : Job} (h : ofConfig config registry = .ok job) :
    job.name = config.name ∧ job.url ≠ "" ∧ job.schedule.Fits := by
  obtain ⟨hname, hurl, ⟨url, hparsed, -⟩, hschedule, -⟩ := ofConfig_eq_ok h
  refine ⟨hname, fun hempty => ?_, Schedule.fits_of_parse? hschedule⟩
  have hfault : Url.parse "" registry.toAscii = .error .relativeWithoutBase := rfl
  rw [← hurl, hempty, hfault] at hparsed
  cases hparsed

theorem ofConfigs_go_spec {seen : List String} {configs : List JobConfig} {jobs : List Job}
    (h : ofConfigs.go registry seen configs = .ok jobs) :
    (jobs.map (·.name)).Nodup ∧ (∀ job ∈ jobs, job.name ∉ seen) ∧
      ∀ job ∈ jobs, job.url ≠ "" ∧ job.schedule.Fits := by
  induction configs generalizing seen jobs with
  | nil =>
    cases h
    exact ⟨.nil, by simp, by simp⟩
  | cons config rest ih =>
    unfold ofConfigs.go at h
    split at h
    · cases h
    · rename_i hnew
      simp only [bind, Except.bind] at h
      split at h
      · cases h
      · rename_i job hjob
        split at h
        · cases h
        · rename_i others hothers
          cases h
          obtain ⟨hname, hurl, hfits⟩ := ofConfig_spec hjob
          obtain ⟨hnodup, hseen, hall⟩ := ih hothers
          refine ⟨?_, ?_, ?_⟩
          · refine List.nodup_cons.2 ⟨fun hmem => ?_, hnodup⟩
            obtain ⟨other, ho, heq⟩ := List.mem_map.1 hmem
            exact hseen other ho (heq.trans hname ▸ List.mem_cons_self)
          · intro other ho
            rcases List.mem_cons.1 ho with rfl | ho
            · exact hname ▸ hnew
            · exact fun hmem => hseen other ho (List.mem_cons_of_mem _ hmem)
          · intro other ho
            rcases List.mem_cons.1 ho with rfl | ho
            · exact ⟨hurl, hfits⟩
            · exact hall other ho

/-- Of validated jobs no two have the same name. -/
theorem ofConfigs_spec {configs : List JobConfig} {jobs : List Job}
    (h : ofConfigs configs registry = .ok jobs) :
    (jobs.map (·.name)).Nodup ∧ ∀ job ∈ jobs, job.url ≠ "" ∧ job.schedule.Fits :=
  ⟨(ofConfigs_go_spec h).1, (ofConfigs_go_spec h).2.2⟩

end Job

end Courier.Cron
