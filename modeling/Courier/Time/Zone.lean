/-
  Courier/Time/Zone.lean
  ======================
  **Time zones with their daylight saving rules.**

  A zone is a list of eras, each with a standard offset and a list of yearly
  rules.  A rule names the moment of a year at which clocks change and the amount
  they are then ahead of standard time; a zone of which no more is known than the
  instants at which its offset changed is one with an era without rules for each
  stretch between them.  From the eras `Zone.offsetAt` computes how far local
  clocks are ahead of Coordinated Universal Time at an instant, and
  `Zone.instants` lists the instants at which local clocks show a given reading:
  none where clocks are put forward over it, two where they are put back over it,
  and one everywhere else.  `Zone.mem_instants_iff` states that this list is
  exactly the preimage of the reading.

  `Zone.known` is the table at hand.  What is proved about zones, and about jobs
  that are scheduled in them, holds of every zone.
-/
import Courier.Time.Civil

namespace Courier.Time

/-! ### Rules -/

/-- A day of a month. -/
inductive DayRule where
  /-- The day of this number. -/
  | day (n : Nat)
  /-- The last Sunday of the month. -/
  | lastSunday
  /-- The first Sunday on or after the day of this number. -/
  | sundayFrom (n : Nat)
deriving DecidableEq, Repr

/-- The day a rule names in a month, as days since 1970-01-01. -/
def DayRule.days (year : Int) (month : Nat) : DayRule → Int
  | .day n => Date.toDays ⟨year, month, n⟩
  | .sundayFrom n =>
    let first := Date.toDays ⟨year, month, n⟩
    first + (7 - Date.weekdayOfDays first) % 7
  | .lastSunday =>
    let last := Date.toDays ⟨year, month, daysInMonth year month⟩
    last - Date.weekdayOfDays last

/-- Which clock shows the time at which a rule takes effect. -/
inductive RuleClock where
  | universal
  | standard
deriving DecidableEq, Repr

/-- A change of the clocks that happens once in each of a range of years. -/
structure ZoneRule where
  fromYear : Int
  toYear : Int
  month : Nat
  day : DayRule
  /-- The time of day of the change, in minutes. -/
  minute : Int
  clock : RuleClock
  /-- The minutes by which clocks are ahead of standard time afterwards. -/
  saving : Int
deriving DecidableEq, Repr

/-- A stretch of time with one standard offset, both in seconds. -/
structure ZoneEra where
  /-- The first second of universal time that no longer belongs to the era. -/
  before : Option Int
  offset : Int
  rules : List ZoneRule
deriving DecidableEq, Repr

/-- A time zone: its eras from the earliest to the present one. -/
structure Zone where
  name : String
  eras : List ZoneEra
deriving DecidableEq, Repr

/-! ### Offsets -/

/-- The instants, in seconds, at which the rules of an era change the clocks in a year, with
    the saving that begins there. -/
def ZoneEra.changes (era : ZoneEra) (year : Int) : List (Int × Int) :=
  era.rules.filterMap fun rule =>
    if rule.fromYear ≤ year ∧ year ≤ rule.toYear then
      let reading := rule.day.days year rule.month * 86400 + rule.minute * 60
      let at_ := match rule.clock with
        | .universal => reading
        | .standard => reading - era.offset
      some (at_, rule.saving * 60)
    else none

/-- The latest of some changes, of several at one second the last one listed. -/
def latestChange? : List (Int × Int) → Option (Int × Int)
  | [] => none
  | change :: rest =>
    match latestChange? rest with
    | none => some change
    | some other => if change.1 ≤ other.1 then some other else some change

theorem latestChange?_mem {changes : List (Int × Int)} {change : Int × Int}
    (h : latestChange? changes = some change) : change ∈ changes := by
  induction changes generalizing change with
  | nil => cases h
  | cons first rest ih =>
    unfold latestChange? at h
    split at h
    · cases h
      exact List.mem_cons_self
    · next other hother =>
      split at h
      · cases h
        exact List.mem_cons_of_mem _ (ih hother)
      · cases h
        exact List.mem_cons_self

/-- The saving in force at a second: that of the latest change which is not after it. -/
def ZoneEra.savingAt (era : ZoneEra) (second : Int) : Int :=
  let year := (Date.ofDays (second / 86400)).year
  let past := (era.changes (year - 1) ++ era.changes year ++ era.changes (year + 1)).filter
    fun change => change.1 ≤ second
  (latestChange? past).elim 0 (·.2)

/-- The saving of a change is that of one of the era's rules. -/
theorem ZoneEra.saving_of_mem_changes {era : ZoneEra} {year : Int} {change : Int × Int}
    (h : change ∈ era.changes year) : ∃ rule ∈ era.rules, change.2 = rule.saving * 60 := by
  unfold ZoneEra.changes at h
  obtain ⟨rule, hrule, heq⟩ := List.mem_filterMap.1 h
  split at heq
  · simp only [Option.some.injEq] at heq
    exact ⟨rule, hrule, by rw [← heq]⟩
  · cases heq

/-- The saving in force is none, or that of one of the era's rules. -/
theorem ZoneEra.savingAt_eq (era : ZoneEra) (second : Int) :
    era.savingAt second = 0 ∨ ∃ rule ∈ era.rules, era.savingAt second = rule.saving * 60 := by
  unfold ZoneEra.savingAt
  simp only
  generalize hlatest : latestChange? _ = latest
  cases latest with
  | none => exact Or.inl rfl
  | some change =>
    have hmem := (List.mem_filter.1 (latestChange?_mem hlatest)).1
    simp only [List.mem_append] at hmem
    rcases hmem with (h | h) | h <;> exact Or.inr (ZoneEra.saving_of_mem_changes h)

namespace Zone

/-- The era in force at a second of universal time. -/
def eraAt (zone : Zone) (second : Int) : Option ZoneEra :=
  zone.eras.find? fun era => era.before.all fun limit => second < limit

/-- How many seconds local clocks are ahead of universal time at a second. -/
def offsetAt (zone : Zone) (second : Int) : Int :=
  match zone.eraAt second with
  | some era => era.offset + era.savingAt second
  | none => 0

/-- Every offset a zone may have. -/
def offsets (zone : Zone) : List Int :=
  (0 :: zone.eras.flatMap fun era =>
    era.offset :: era.rules.map fun rule => era.offset + rule.saving * 60).eraseDups

/-- The seconds of universal time at which local clocks show a reading, earliest first. -/
def instants (zone : Zone) (reading : Int) : List Int :=
  ((zone.offsets.map (reading - ·)).filter fun second =>
    second + zone.offsetAt second = reading).mergeSort

end Zone

/-! ### The zones in use -/

private def allYears : Int := 9999

/-- The rules of the European Union since 1977. -/
def europeanRules : List ZoneRule :=
  [⟨1977, 1980, 4, .sundayFrom 1, 60, .universal, 60⟩,
   ⟨1977, 1977, 9, .lastSunday, 60, .universal, 0⟩,
   ⟨1978, 1978, 10, .day 1, 60, .universal, 0⟩,
   ⟨1979, 1995, 9, .lastSunday, 60, .universal, 0⟩,
   ⟨1981, allYears, 3, .lastSunday, 60, .universal, 60⟩,
   ⟨1996, allYears, 10, .lastSunday, 60, .universal, 0⟩]

/-- The rules of Great Britain from 1972 to 1995. -/
def britishRules : List ZoneRule :=
  [⟨1972, 1980, 3, .sundayFrom 16, 120, .standard, 60⟩,
   ⟨1972, 1980, 10, .sundayFrom 23, 120, .standard, 0⟩,
   ⟨1981, 1995, 3, .lastSunday, 60, .universal, 60⟩,
   ⟨1981, 1989, 10, .sundayFrom 23, 60, .universal, 0⟩,
   ⟨1990, 1995, 10, .sundayFrom 22, 60, .universal, 0⟩]

/-- The rules of the United States since 1967; clocks go back at one o'clock standard time. -/
def americanRules : List ZoneRule :=
  [⟨1967, 2006, 10, .lastSunday, 60, .standard, 0⟩,
   ⟨1967, 1973, 4, .lastSunday, 120, .standard, 60⟩,
   ⟨1974, 1974, 1, .day 6, 120, .standard, 60⟩,
   ⟨1975, 1975, 2, .lastSunday, 120, .standard, 60⟩,
   ⟨1976, 1986, 4, .lastSunday, 120, .standard, 60⟩,
   ⟨1987, 2006, 4, .sundayFrom 1, 120, .standard, 60⟩,
   ⟨2007, allYears, 3, .sundayFrom 8, 120, .standard, 60⟩,
   ⟨2007, allYears, 11, .sundayFrom 1, 60, .standard, 0⟩]

/-- The rules of New South Wales since 1971. -/
def newSouthWalesRules : List ZoneRule :=
  [⟨1971, 1985, 10, .lastSunday, 120, .standard, 60⟩,
   ⟨1972, 1972, 2, .day 27, 120, .standard, 0⟩,
   ⟨1973, 1981, 3, .sundayFrom 1, 120, .standard, 0⟩,
   ⟨1982, 1982, 4, .sundayFrom 1, 120, .standard, 0⟩,
   ⟨1983, 1985, 3, .sundayFrom 1, 120, .standard, 0⟩,
   ⟨1986, 1989, 3, .sundayFrom 15, 120, .standard, 0⟩,
   ⟨1986, 1986, 10, .day 19, 120, .standard, 60⟩,
   ⟨1987, 1999, 10, .lastSunday, 120, .standard, 60⟩,
   ⟨1990, 1995, 3, .sundayFrom 1, 120, .standard, 0⟩,
   ⟨1996, 2005, 3, .lastSunday, 120, .standard, 0⟩,
   ⟨2000, 2000, 8, .lastSunday, 120, .standard, 60⟩,
   ⟨2001, 2007, 10, .lastSunday, 120, .standard, 60⟩,
   ⟨2006, 2006, 4, .sundayFrom 1, 120, .standard, 0⟩,
   ⟨2007, 2007, 3, .lastSunday, 120, .standard, 0⟩,
   ⟨2008, allYears, 4, .sundayFrom 1, 120, .standard, 0⟩,
   ⟨2008, allYears, 10, .sundayFrom 1, 120, .standard, 60⟩]

/-- The rules of Lord Howe Island since 1981; since 1985 clocks move by half an hour only. -/
def lordHoweRules : List ZoneRule :=
  [⟨1981, 1984, 10, .lastSunday, 120, .standard, 60⟩,
   ⟨1982, 1985, 3, .sundayFrom 1, 60, .standard, 0⟩,
   ⟨1985, 1985, 10, .lastSunday, 120, .standard, 30⟩,
   ⟨1986, 1989, 3, .sundayFrom 15, 90, .standard, 0⟩,
   ⟨1986, 1986, 10, .day 19, 120, .standard, 30⟩,
   ⟨1987, 1999, 10, .lastSunday, 120, .standard, 30⟩,
   ⟨1990, 1995, 3, .sundayFrom 1, 90, .standard, 0⟩,
   ⟨1996, 2005, 3, .lastSunday, 90, .standard, 0⟩,
   ⟨2000, 2000, 8, .lastSunday, 120, .standard, 30⟩,
   ⟨2001, 2007, 10, .lastSunday, 120, .standard, 30⟩,
   ⟨2006, 2006, 4, .sundayFrom 1, 90, .standard, 0⟩,
   ⟨2007, 2007, 3, .lastSunday, 90, .standard, 0⟩,
   ⟨2008, allYears, 4, .sundayFrom 1, 90, .standard, 0⟩,
   ⟨2008, allYears, 10, .sundayFrom 1, 120, .standard, 30⟩]

/-- The first second of a day in universal time. -/
private def dayStart (year : Int) (month day : Nat) : Int :=
  Date.toDays ⟨year, month, day⟩ * 86400

namespace Zone

/-- A zone whose clocks never change. -/
def fixed (name : String) (minutes : Int) : Zone := ⟨name, [⟨none, minutes * 60, []⟩]⟩

/-- Coordinated Universal Time. -/
def utc : Zone := fixed "UTC" 0

/-- The zones at hand. -/
def known : List Zone :=
  [utc,
   fixed "GMT" 0,
   ⟨"Europe/Berlin",
    [⟨some (dayStart 1980 1 1 - 3600), 3600, []⟩, ⟨none, 3600, europeanRules⟩]⟩,
   ⟨"Europe/London",
    [⟨some (dayStart 1971 10 31 + 7200), 3600, []⟩, ⟨some (dayStart 1996 1 1), 0, britishRules⟩,
     ⟨none, 0, europeanRules⟩]⟩,
   ⟨"America/New_York", [⟨none, -18000, americanRules⟩]⟩,
   ⟨"America/Chicago", [⟨none, -21600, americanRules⟩]⟩,
   fixed "Asia/Kolkata" 330,
   fixed "Asia/Tokyo" 540,
   ⟨"Asia/Kathmandu", [⟨some (dayStart 1986 1 1 - 19800), 19800, []⟩, ⟨none, 20700, []⟩]⟩,
   ⟨"Australia/Sydney", [⟨none, 36000, newSouthWalesRules⟩]⟩,
   ⟨"Australia/Lord_Howe",
    [⟨some (dayStart 1981 3 1 - 36000), 36000, []⟩, ⟨none, 37800, lordHoweRules⟩]⟩,
   fixed "Etc/GMT+5" (-300)]

/-- The zone at hand of a name, spelled exactly. -/
def ofName? (name : String) : Option Zone := known.find? (·.name = name)

/-- The offset at any second is one of the offsets listed. -/
theorem offsetAt_mem_offsets (zone : Zone) (second : Int) :
    zone.offsetAt second ∈ zone.offsets := by
  unfold offsetAt offsets
  rw [List.mem_eraseDups]
  split
  · next era hera =>
    have hmem : era ∈ zone.eras := List.mem_of_find?_eq_some hera
    refine List.mem_cons_of_mem _ (List.mem_flatMap.2 ⟨era, hmem, ?_⟩)
    rcases era.savingAt_eq second with h | ⟨rule, hrule, h⟩
    · rw [h, Int.add_zero]
      exact List.mem_cons_self
    · rw [h]
      exact List.mem_cons_of_mem _ (List.mem_map.2 ⟨rule, hrule, rfl⟩)
  · exact List.mem_cons_self

/-- Local clocks show a reading exactly at the instants listed for it. -/
theorem mem_instants_iff (zone : Zone) (reading second : Int) :
    second ∈ zone.instants reading ↔ second + zone.offsetAt second = reading := by
  unfold instants
  rw [(List.mergeSort_perm _ _).mem_iff, List.mem_filter]
  constructor
  · intro h; simpa using h.2
  · intro h
    refine ⟨List.mem_map.2 ⟨zone.offsetAt second, offsetAt_mem_offsets zone second, ?_⟩, ?_⟩
    · omega
    · simpa using h

end Zone

end Courier.Time
