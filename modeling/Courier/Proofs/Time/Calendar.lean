/-
  Courier/Proofs/Time/Calendar.lean
  =================================
  **Dates are in the order of their days.**

  The date of a day exists (`Date.valid_ofDays`), and of two dates the one with the
  greater year, month or day of the month, compared in this order, is the later day
  (`Date.toDays_lt_of_precedes`).  So readings of calendar and clock may be compared
  field by field: `Civil.toSeconds_le_of_notBefore`.
-/
import Courier.Time.Civil
import Mathlib.Tactic.IntervalCases

namespace Courier.Time

/-! ### Dates that exist -/

namespace Date

theorem daysInMonth_bounds (year : Int) (month : Nat) :
    28 ≤ daysInMonth year month ∧ daysInMonth year month ≤ 31 := by
  unfold daysInMonth
  split
  · split <;> omega
  · split <;> omega

theorem valid_ofMarchDay {year ofYear : Int} (hlow : 0 ≤ ofYear) (hhigh : ofYear ≤ 365)
    (hleap : ofYear = 365 → isLeapYear (year + 1) = true) : (ofMarchDay year ofYear).Valid := by
  simp only [ofMarchDay]
  generalize hm : (5 * ofYear + 2) / 153 = fromMarch
  have hmonths : 0 ≤ fromMarch ∧ fromMarch ≤ 11 := by omega
  split
  · have hday : (ofYear - (153 * fromMarch + 2) / 5 + 1).toNat ≤
        daysInMonth year (fromMarch + 3).toNat := by
      unfold daysInMonth
      rw [if_neg (by omega)]
      split <;> omega
    refine ⟨?_, ?_, ?_, hday⟩ <;> dsimp only <;> omega
  · have hday : (ofYear - (153 * fromMarch + 2) / 5 + 1).toNat ≤
        daysInMonth (year + 1) (fromMarch - 9).toNat := by
      unfold daysInMonth
      split
      · split
        · omega
        · rename_i hcommon
          have hshort : ofYear ≠ 365 := fun h => hcommon (hleap h)
          omega
      · rw [if_neg (by omega)]
        omega
    refine ⟨?_, ?_, ?_, hday⟩ <;> dsimp only <;> omega

theorem valid_ofDays (days : Int) : (ofDays days).Valid := by
  obtain ⟨year, ofYear, hdate, -, hlow, hhigh, hleap⟩ := exists_marchDay days
  rw [hdate]
  exact valid_ofMarchDay hlow hhigh hleap

/-! ### The order of dates -/

/-- Whether a date comes before another one, by year, month and day of the month. -/
def Precedes (a b : Date) : Prop :=
  a.year < b.year ∨ a.year = b.year ∧ (a.month < b.month ∨ a.month = b.month ∧ a.day < b.day)

/-- A leap year is one day longer than any other. -/
theorem leapDays_succ (year : Int) :
    year / 4 - year / 100 + year / 400 =
      (year - 1) / 4 - (year - 1) / 100 + (year - 1) / 400 +
        if isLeapYear year = true then 1 else 0 := by
  have h4 : year / 4 = (year - 1) / 4 + if year % 4 = 0 then 1 else 0 := by split <;> omega
  have h100 : year / 100 = (year - 1) / 100 + if year % 100 = 0 then 1 else 0 := by
    split <;> omega
  have h400 : year / 400 = (year - 1) / 400 + if year % 400 = 0 then 1 else 0 := by
    split <;> omega
  rw [h4, h100, h400]
  simp only [isLeapYear_iff]
  split <;> split <;> split <;> split <;> omega

theorem toDays_eq_first (year : Int) (month day : Nat) :
    toDays ⟨year, month, day⟩ = toDays ⟨year, month, 1⟩ + day - 1 := by
  simp only [toDays]
  omega

/-- A month begins right after the one before. -/
theorem toDays_succ_month (year : Int) {month : Nat} (hlow : 1 ≤ month) (hhigh : month < 12) :
    toDays ⟨year, month + 1, 1⟩ = toDays ⟨year, month, 1⟩ + daysInMonth year month := by
  simp only [toDays, daysInMonth]
  by_cases hfeb : month = 2
  · -- the day count begins its years in March, so the two dates are in different ones
    have hleap := leapDays_succ year
    subst hfeb
    split at hleap <;> rename_i hyear <;> simp [hyear] <;> omega
  · rw [if_neg hfeb]
    interval_cases month <;> simp at hfeb ⊢ <;> omega

/-- A later month of the year begins after all days of this one. -/
theorem toDays_month_le (year : Int) {month later : Nat} (hlow : 1 ≤ month)
    (hlater : month < later) (hhigh : later ≤ 12) :
    toDays ⟨year, month, 1⟩ + daysInMonth year month ≤ toDays ⟨year, later, 1⟩ := by
  induction later, hlater using Nat.le_induction with
  | base => exact Int.le_of_eq (toDays_succ_month year hlow (by omega)).symm
  | succ later hm ih =>
    have hnext := toDays_succ_month year (show 1 ≤ later by omega) (by omega)
    have hdays := (daysInMonth_bounds year later).1
    have hrest := ih (by omega)
    omega

/-- A later year begins after all days of this one. -/
theorem toDays_year_lt {year later : Int} (h : year < later) :
    toDays ⟨year, 12, 1⟩ + 31 ≤ toDays ⟨later, 1, 1⟩ := by
  simp only [toDays]
  simp
  omega

/-- Of two dates the one that comes before the other is the earlier day. -/
theorem toDays_lt_of_precedes {a b : Date} (ha : a.Valid) (hb : b.Valid) (h : a.Precedes b) :
    a.toDays < b.toDays := by
  obtain ⟨year, month, day⟩ := a
  obtain ⟨year', month', day'⟩ := b
  obtain ⟨hmonth, hmonth12, hday, hlast⟩ := ha
  obtain ⟨hmonth', hmonth12', hday', -⟩ := hb
  simp only [Precedes] at *
  rw [toDays_eq_first, toDays_eq_first year']
  rcases h with hyear | ⟨rfl, hlater | ⟨rfl, hlater⟩⟩
  · have hend : toDays ⟨year, month, 1⟩ + daysInMonth year month ≤ toDays ⟨year, 12, 1⟩ + 31 := by
      rcases Nat.lt_or_eq_of_le hmonth12 with hlt | rfl
      · have hle := toDays_month_le year hmonth hlt (Nat.le_refl 12)
        omega
      · exact Int.le_refl _
    have hbegin : toDays ⟨year', 1, 1⟩ ≤ toDays ⟨year', month', 1⟩ := by
      rcases Nat.lt_or_eq_of_le hmonth' with hlt | rfl
      · have hle := toDays_month_le year' (Nat.le_refl 1) hlt hmonth12'
        omega
      · exact Int.le_refl _
    have hyears := toDays_year_lt hyear
    omega
  · have hle := toDays_month_le year hmonth hlater hmonth12'
    omega
  · omega

end Date

/-! ### The order of readings -/

namespace Civil

/-- Whether the hour, the minute and the second are ones that a clock shows. -/
def OnClock (c : Civil) : Prop := c.hour ≤ 23 ∧ c.minute ≤ 59 ∧ c.second ≤ 59

theorem onClock_ofSeconds (seconds : Int) (nanos : Nat) : (ofSeconds seconds nanos).OnClock := by
  simp only [OnClock, ofSeconds]
  omega

/-- Whether a reading is the same as another one or comes after it, fractions of a second apart. -/
def NotBefore (b a : Civil) : Prop :=
  a.date.Precedes b.date ∨ a.date = b.date ∧
    (a.hour < b.hour ∨ a.hour = b.hour ∧
      (a.minute < b.minute ∨ a.minute = b.minute ∧ a.second ≤ b.second))

theorem toSeconds_le_of_notBefore {a b : Civil} (ha : a.date.Valid) (ha' : a.OnClock)
    (hb : b.date.Valid) (hb' : b.OnClock) (h : b.NotBefore a) : a.toSeconds ≤ b.toSeconds := by
  obtain ⟨hhour, hminute, hsecond⟩ := ha'
  obtain ⟨hhour', hminute', hsecond'⟩ := hb'
  unfold toSeconds
  rcases h with hdate | ⟨hdate, htime⟩
  · have hlt := Date.toDays_lt_of_precedes ha hb hdate
    omega
  · rw [hdate]
    omega

end Civil

end Courier.Time
