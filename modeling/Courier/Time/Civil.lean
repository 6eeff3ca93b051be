/-
  Courier/Time/Civil.lean
  =======================
  **The proleptic Gregorian calendar.**

  Days are counted from 1970-01-01.  `Date.ofDays` finds the date of a day by
  dividing into cycles of 400, 100, 4 and 1 years that begin on the first of
  March, so that a leap day is the last day of its cycle; `Date.toDays` counts
  back and finds the day again: `Date.toDays_ofDays`.
-/
import Courier.Time.Instant

namespace Courier.Time

/-! ### Dates -/

/-- A date of the Gregorian calendar; year 0 precedes year 1. -/
structure Date where
  year : Int
  month : Nat
  day : Nat
deriving DecidableEq, Repr

/-- Whether a year has a 29th of February. -/
def isLeapYear (year : Int) : Bool :=
  year % 4 == 0 && (year % 100 != 0 || year % 400 == 0)

/-- The number of days of a month. -/
def daysInMonth (year : Int) (month : Nat) : Nat :=
  if month = 2 then (if isLeapYear year then 29 else 28)
  else if month = 4 ∨ month = 6 ∨ month = 9 ∨ month = 11 then 30
  else 31

namespace Date

/-- Whether the month and the day exist. -/
def Valid (d : Date) : Prop :=
  1 ≤ d.month ∧ d.month ≤ 12 ∧ 1 ≤ d.day ∧ d.day ≤ daysInMonth d.year d.month

instance (d : Date) : Decidable d.Valid := inferInstanceAs (Decidable (_ ∧ _))

/-- The days from 1970-01-01 to a date. -/
def toDays (d : Date) : Int :=
  let year : Int := if d.month ≤ 2 then d.year - 1 else d.year
  let fromMarch : Int := if d.month ≤ 2 then (d.month : Int) + 9 else (d.month : Int) - 3
  365 * year + year / 4 - year / 100 + year / 400 + (153 * fromMarch + 2) / 5 + d.day - 719469

/-- The date a number of days after 1970-01-01. -/
def ofDays (days : Int) : Date :=
  let fromOrigin := days + 719468
  let n400 := fromOrigin / 146097
  let r400 := fromOrigin % 146097
  let n100 := if r400 = 146096 then 3 else r400 / 36524
  let r100 := r400 - 36524 * n100
  let n4 := r100 / 1461
  let r4 := r100 % 1461
  let n1 := if r4 = 1460 then 3 else r4 / 365
  let ofYear := r4 - 365 * n1
  let year := 400 * n400 + 100 * n100 + 4 * n4 + n1
  let fromMarch := (5 * ofYear + 2) / 153
  let day := ofYear - (153 * fromMarch + 2) / 5 + 1
  if fromMarch < 10 then ⟨year, (fromMarch + 3).toNat, day.toNat⟩
  else ⟨year + 1, (fromMarch - 9).toNat, day.toNat⟩

/-- The weekday of a day counted from 1970-01-01; 0 is Sunday. -/
def weekdayOfDays (days : Int) : Nat := ((days + 4) % 7).toNat

/-- The weekday of a date; 0 is Sunday. -/
def weekday (d : Date) : Nat := weekdayOfDays d.toDays

/-! The years of `ofDays` begin on the first of March: what it does is to find the year and the day
of the year (`exists_marchDay`), and then to read the date off them (`ofMarchDay`). -/

/-- The date of a day of a year that begins on the first of March. -/
def ofMarchDay (year ofYear : Int) : Date :=
  let fromMarch := (5 * ofYear + 2) / 153
  let day := ofYear - (153 * fromMarch + 2) / 5 + 1
  if fromMarch < 10 then ⟨year, (fromMarch + 3).toNat, day.toNat⟩
  else ⟨year + 1, (fromMarch - 9).toNat, day.toNat⟩

theorem isLeapYear_iff (year : Int) :
    isLeapYear year = true ↔ year % 4 = 0 ∧ (year % 100 ≠ 0 ∨ year % 400 = 0) := by
  unfold isLeapYear
  simp

/-- Every day is a day of a year that begins on the first of March, and only if the next February
    has a leap day can it be the 366th. -/
theorem exists_marchDay (days : Int) :
    ∃ year ofYear : Int, ofDays days = ofMarchDay year ofYear ∧
      days + 719468 = 365 * year + year / 4 - year / 100 + year / 400 + ofYear ∧
      0 ≤ ofYear ∧ ofYear ≤ 365 ∧ (ofYear = 365 → isLeapYear (year + 1) = true) := by
  simp only [ofDays, ofMarchDay, isLeapYear_iff]
  generalize days + 719468 = z
  generalize h400 : z / 146097 = n400
  generalize hr400 : z % 146097 = r400
  have hr400b : 0 ≤ r400 ∧ r400 < 146097 := by omega
  generalize h100 : (if r400 = 146096 then (3 : Int) else r400 / 36524) = n100
  have hn100 : 0 ≤ n100 ∧ n100 ≤ 3 ∧ 0 ≤ r400 - 36524 * n100 ∧ r400 - 36524 * n100 ≤ 36524
      ∧ (n100 < 3 → r400 - 36524 * n100 < 36524) := by
    subst h100; split <;> omega
  generalize hr100 : r400 - 36524 * n100 = r100 at *
  generalize h4 : r100 / 1461 = n4
  generalize hr4 : r100 % 1461 = r4
  have hn4 : 0 ≤ n4 ∧ n4 ≤ 24 ∧ 0 ≤ r4 ∧ r4 < 1461 := by omega
  -- a day that only a leap year has is the last one of its four years
  have hleap : n4 = 24 → n100 < 3 → r4 < 1460 := by omega
  generalize h1 : (if r4 = 1460 then (3 : Int) else r4 / 365) = n1
  have hn1 : 0 ≤ n1 ∧ n1 ≤ 3 ∧ 0 ≤ r4 - 365 * n1 ∧ r4 - 365 * n1 ≤ 365
      ∧ (r4 - 365 * n1 = 365 → n1 = 3 ∧ r4 = 1460) := by
    subst h1; split <;> omega
  have h4' : (400 * n400 + 100 * n100 + 4 * n4 + n1) / 4 = 100 * n400 + 25 * n100 + n4 := by
    omega
  have h100' : (400 * n400 + 100 * n100 + 4 * n4 + n1) / 100 = 4 * n400 + n100 := by omega
  have h400' : (400 * n400 + 100 * n100 + 4 * n4 + n1) / 400 = n400 := by omega
  refine ⟨400 * n400 + 100 * n100 + 4 * n4 + n1, r4 - 365 * n1, rfl, ?_, by omega, by omega, ?_⟩
  · rw [h4', h100', h400']
    omega
  · intro hlast
    omega

theorem toDays_ofMarchDay {year ofYear : Int} (hlow : 0 ≤ ofYear) (hhigh : ofYear ≤ 365) :
    (ofMarchDay year ofYear).toDays =
      365 * year + year / 4 - year / 100 + year / 400 + ofYear - 719468 := by
  simp only [ofMarchDay]
  generalize hm : (5 * ofYear + 2) / 153 = fromMarch
  have hmonths : 0 ≤ fromMarch ∧ fromMarch ≤ 11 := by omega
  have hday : 0 ≤ ofYear - (153 * fromMarch + 2) / 5 := by omega
  split
  · have hmonth : ¬ (fromMarch + 3).toNat ≤ 2 := by omega
    simp only [toDays, hmonth, if_false]
    omega
  · have hmonth : (fromMarch - 9).toNat ≤ 2 := by omega
    simp only [toDays, hmonth, if_true, Int.add_sub_cancel]
    omega

/-- Counting the days of the date of a day gives the day back. -/
theorem toDays_ofDays (days : Int) : (ofDays days).toDays = days := by
  obtain ⟨year, ofYear, hdate, hdays, hlow, hhigh, -⟩ := exists_marchDay days
  rw [hdate, toDays_ofMarchDay hlow hhigh]
  omega

end Date

/-! ### Date and time of day -/

/-- A date with a time of day. -/
structure Civil where
  date : Date
  hour : Nat
  minute : Nat
  second : Nat
  nanos : Nat
deriving DecidableEq, Repr

namespace Civil

/-- The reading of a calendar and a clock a number of seconds after 1970-01-01T00:00:00 on them. -/
def ofSeconds (seconds : Int) (nanos : Nat) : Civil :=
  let ofDay := (seconds % 86400).toNat
  { date := Date.ofDays (seconds / 86400)
    hour := ofDay / 3600
    minute := ofDay / 60 % 60
    second := ofDay % 60
    nanos }

/-- The seconds from 1970-01-01T00:00:00 on the same calendar and clock. -/
def toSeconds (c : Civil) : Int :=
  c.date.toDays * 86400 + c.hour * 3600 + c.minute * 60 + c.second

/-- Reading the calendar and counting back gives the same second. -/
theorem toSeconds_ofSeconds (seconds : Int) (nanos : Nat) :
    (ofSeconds seconds nanos).toSeconds = seconds := by
  simp only [toSeconds, ofSeconds, Date.toDays_ofDays]
  omega

end Civil

/-- The date and time of an instant in Coordinated Universal Time. -/
def Instant.civil (t : Instant) : Civil := Civil.ofSeconds t.seconds t.subsecond

/-- The instant of a date and time in Coordinated Universal Time. -/
def Civil.instant (c : Civil) : Instant := ⟨c.toSeconds * 1000000000 + c.nanos⟩

/-- An instant is determined by its date and time. -/
theorem Instant.civil_instant (t : Instant) : t.civil.instant = t := by
  have h := Civil.toSeconds_ofSeconds t.seconds t.subsecond
  simp only [Instant.civil, Civil.instant, h]
  have hn : (Civil.ofSeconds t.seconds t.subsecond).nanos = t.subsecond := rfl
  rw [hn]
  cases t with
  | mk n =>
    simp only [Instant.seconds, Instant.subsecond, Instant.mk.injEq]
    omega

end Courier.Time
