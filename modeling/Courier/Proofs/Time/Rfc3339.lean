/-
  Courier/Proofs/Time/Rfc3339.lean
  ================================
  **The text of an instant is read back as the instant.**

  An instant of the years that four digits can name is written in fields of fixed
  width with a mark behind each, so what reads a field takes its digits and stops at
  the mark (`readDigits?_padded`).  Only the fraction varies in length: it is cut
  where nothing but zeros follows, and the reader fills them up again
  (`readFraction?_fractionText`).  The fields together are the calendar and the clock
  of the instant, which determine it: `Instant.ofText?_toText`.
-/
import Courier.Proofs.Text.Numeral
import Courier.Proofs.Time.Calendar
import Courier.Time.Rfc3339

namespace Courier

namespace Time

open Text

/-! ### The fields -/

theorem digitsValue_padded (width n : Nat) : digitsValue (padded width n) = n := by
  have hvalue := ofDigitChars_padded width n
  rw [Nat.ofDigitChars_eq_foldl] at hvalue
  simpa [digitsValue, digitValue, Nat.mul_comm] using hvalue

theorem takeWhile_padded (width n : Nat) (rest : List Char) :
    (padded width n ++ rest).takeWhile isDigit = padded width n ++ rest.takeWhile isDigit := by
  apply List.takeWhile_append_of_pos
  intro c hc
  exact isDigit_of_mem_padded hc

/-- A number is all that is taken from a text in which no digit follows it. -/
theorem takeWhile_take_padded {most width n : Nat} {c : Char} (hwidth : 0 < width)
    (hmost : width ≤ most) (h : n < 10 ^ width) (hc : isDigit c = false) (rest : List Char) :
    ((padded width n ++ c :: rest).take most).takeWhile isDigit = padded width n := by
  have hlength := length_padded hwidth h
  rw [List.take_append, List.take_of_length_le (by omega), takeWhile_padded]
  cases hleft : most - (padded width n).length <;> simp [hc]

/-- A number that fills the width of its field is read whatever follows it. -/
theorem readDigits?_padded {width n : Nat} (hwidth : 0 < width) (h : n < 10 ^ width)
    (rest : List Char) : readDigits? width (padded width n ++ rest) = some (n, rest) := by
  have hlength := length_padded hwidth h
  have htake : ((padded width n ++ rest).take width).takeWhile isDigit = padded width n := by
    rw [List.take_left' hlength]
    simpa using takeWhile_padded width n []
  have hne := padded_ne_nil hwidth h
  simp [readDigits?, htake, hne, digitsValue_padded]

theorem readField?_padded {n : Nat} (h : n < 100) (rest : List Char) :
    readField? (padded 2 n ++ rest) = some (n, rest) := by
  unfold readField?
  rw [trimStart_padded (by decide) h, readDigits?_padded (by decide) h]

theorem readMark?_cons {mark : Char} (h : isBlank mark = false) (rest : List Char) :
    readMark? mark (mark :: rest) = some rest := by
  simp [readMark?, trimStart, h]

theorem readYear?_yearText {year : Int} (h : 0 ≤ year ∧ year ≤ 9999) (rest : List Char) :
    readYear? (yearText year ++ rest) = some (year, rest) := by
  have hnat : year.toNat < 10 ^ 4 := by omega
  obtain ⟨c, digits, hcons⟩ := List.exists_cons_of_ne_nil (padded_ne_nil (by decide) hnat)
  have hc : c.isDigit = true := isDigit_of_mem_padded (hcons ▸ List.mem_cons_self)
  have hread := readDigits?_padded (by decide) hnat rest
  have htrim := trimStart_padded (by decide) hnat rest
  unfold readYear?
  rw [yearText, if_pos h, htrim]
  rw [hcons] at hread ⊢
  -- a digit is no sign
  have hminus : c ≠ '-' := by
    rintro rfl
    cases hc
  have hplus : c ≠ '+' := by
    rintro rfl
    cases hc
  simp only [List.cons_append] at hread ⊢
  split
  · simp_all
  · simp_all
  · rw [hread]
    simp
    omega

/-- The digits that were cut off a fraction are zeros, which the reader fills up again. -/
theorem readFraction?_padded {width n : Nat} {c : Char} (hwidth : 0 < width) (hmost : width ≤ 9)
    (h : n < 10 ^ width) (hc : isDigit c = false) (rest : List Char) :
    readFraction? ('.' :: padded width n ++ c :: rest) =
      some (n * 10 ^ (9 - width), c :: rest) := by
  have hdigits := takeWhile_take_padded hwidth hmost h hc rest
  have hlength := length_padded hwidth h
  have hne := padded_ne_nil hwidth h
  simp [readFraction?, readDigits?, hdigits, hne, hlength, digitsValue_padded, hc]

theorem readFraction?_fractionText {nanos : Nat} (h : nanos < 1000000000) (rest : List Char) :
    readFraction? (fractionText nanos ++ 'Z' :: rest) = some (nanos, 'Z' :: rest) := by
  unfold fractionText
  split
  · subst nanos
    rfl
  split
  · rw [readFraction?_padded (by decide) (by decide) (by omega) rfl]
    simp
    omega
  split
  · rw [readFraction?_padded (by decide) (by decide) (by omega) rfl]
    simp
    omega
  · rw [readFraction?_padded (by decide) (by decide) (by omega) rfl]
    simp

/-! ### Instants -/

theorem Instant.sub_zero_seconds (t : Instant) : t - Span.ofSeconds 0 = t := by
  cases t
  exact congrArg Instant.mk (Int.sub_zero _)

/-- The text of a date and time that exist is read field by field. -/
theorem Instant.ofText?_text {c : Civil} (hyear : 0 ≤ c.date.year ∧ c.date.year ≤ 9999)
    (hvalid : c.date.Valid) (hclock : c.OnClock) (hnanos : c.nanos < 1000000000) :
    ofText? (String.ofList (c.text 'T' ++ ['Z'])) = some c.instant := by
  obtain ⟨hhour, hminute, hsecond⟩ := hclock
  have hmonth : c.date.month < 100 := by
    have hlast := hvalid.2.1
    omega
  have hday : c.date.day < 100 := by
    have hlast := hvalid.2.2.2
    have hlength := (Date.daysInMonth_bounds c.date.year c.date.month).2
    omega
  have hyears : leastYear ≤ c.date.year ∧ c.date.year ≤ greatestYear ∧ c.date.Valid := by
    unfold leastYear greatestYear
    exact ⟨by omega, by omega, hvalid⟩
  have htimes : c.hour ≤ 23 ∧ c.minute ≤ 59 ∧ c.second ≤ 60 := ⟨hhour, hminute, by omega⟩
  unfold ofText?
  simp only [String.toList_ofList, Civil.text, Date.text, Civil.clockText, List.append_assoc,
    List.cons_append]
  -- the date
  refine Option.bind_eq_some_iff.2 ⟨_, readYear?_yearText hyear _, ?_⟩
  refine Option.bind_eq_some_iff.2 ⟨_, readMark?_cons rfl _, ?_⟩
  refine Option.bind_eq_some_iff.2 ⟨_, readField?_padded hmonth _, ?_⟩
  refine Option.bind_eq_some_iff.2 ⟨_, readMark?_cons rfl _, ?_⟩
  refine Option.bind_eq_some_iff.2 ⟨_, readField?_padded hday _, ?_⟩
  refine Option.bind_eq_some_iff.2 ⟨_, rfl, ?_⟩
  -- the time of day
  refine Option.bind_eq_some_iff.2 ⟨_, readField?_padded (by omega) _, ?_⟩
  refine Option.bind_eq_some_iff.2 ⟨_, readMark?_cons rfl _, ?_⟩
  refine Option.bind_eq_some_iff.2 ⟨_, readField?_padded (by omega) _, ?_⟩
  refine Option.bind_eq_some_iff.2 ⟨_, readMark?_cons rfl _, ?_⟩
  refine Option.bind_eq_some_iff.2 ⟨_, readField?_padded (by omega) _, ?_⟩
  refine Option.bind_eq_some_iff.2 ⟨_, readFraction?_fractionText hnanos _, ?_⟩
  -- the offset, and nothing behind it
  refine Option.bind_eq_some_iff.2 ⟨(0, []), rfl, ?_⟩
  refine Option.bind_eq_some_iff.2 ⟨(), rfl, ?_⟩
  refine Option.bind_eq_some_iff.2 ⟨(), if_pos hyears, ?_⟩
  refine Option.bind_eq_some_iff.2 ⟨(), if_pos htimes, ?_⟩
  exact congrArg some (sub_zero_seconds c.instant)

/-- Whether an instant lies in a year that is written with four digits. -/
def Instant.InFourDigitYear (t : Instant) : Prop :=
  0 ≤ t.civil.date.year ∧ t.civil.date.year ≤ 9999

instance (t : Instant) : Decidable t.InFourDigitYear := inferInstanceAs (Decidable (_ ∧ _))

theorem Instant.ofText?_toText {t : Instant} (h : t.InFourDigitYear) :
    ofText? t.toText = some t := by
  have hvalid : t.civil.date.Valid := Date.valid_ofDays _
  have hclock : t.civil.OnClock := Civil.onClock_ofSeconds _ _
  have hnanos : t.civil.nanos < 1000000000 := by
    simp only [civil, Civil.ofSeconds, subsecond]
    omega
  unfold toText
  rw [ofText?_text h hvalid hclock hnanos, t.civil_instant]

end Time

end Courier
