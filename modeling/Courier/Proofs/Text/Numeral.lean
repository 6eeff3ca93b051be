/-
  Courier/Proofs/Text/Numeral.lean
  ================================
  **Which texts are read as a number.**

  A number is written with zeros in front, a plus sign and white space around it, as
  long as it has a digit (`Writes`).  Trimming takes the white space at both ends and
  nothing else (`trim_around`, `exists_trim`), and the digits are read one by one onto
  a value that may not leave its range.  A value never shrinks while digits are read
  onto it, so one that has left the range does not come back: what is read is the
  value of all the digits, however many there are (`readDigits_eq_ok_iff`).
  `readInteger_trim_eq_ok_iff` puts the two together.
-/
import Courier.Text.Integer
import Mathlib.Algebra.Order.Ring.Nat
import Mathlib.Data.List.DropRight

namespace Courier.Text

/-! ### Numbers with leading zeros -/

theorem ofDigitChars_padded (width n : Nat) : Nat.ofDigitChars 10 (padded width n) 0 = n := by
  unfold padded
  rw [Nat.ofDigitChars_append, Nat.ofDigitChars_replicate_zero, Nat.mul_zero,
    Nat.ofDigitChars_toDigits (by decide) (by decide)]

theorem padded_injective {width a b : Nat} (h : padded width a = padded width b) : a = b := by
  rw [← ofDigitChars_padded width a, h, ofDigitChars_padded]

theorem length_padded {width n : Nat} (hwidth : 0 < width) (h : n < 10 ^ width) :
    (padded width n).length = width := by
  have hdigits := (Nat.length_toDigits_le_iff (by decide : 1 < 10) hwidth).2 h
  unfold padded
  rw [List.length_append, List.length_replicate]
  omega

theorem isDigit_of_mem_padded {width n : Nat} {c : Char} (h : c ∈ padded width n) :
    c.isDigit = true := by
  rcases List.mem_append.1 h with hzero | hdigit
  · rw [List.eq_of_mem_replicate hzero]
    rfl
  · exact Nat.isDigit_of_mem_toDigits (by decide) (by decide) hdigit

theorem padded_ne_nil {width n : Nat} (hwidth : 0 < width) (h : n < 10 ^ width) :
    padded width n ≠ [] := by
  intro hnil
  have hlength := length_padded hwidth h
  rw [hnil] at hlength
  simp at hlength
  omega

/-- A digit is no blank. -/
theorem isBlank_of_isDigit {c : Char} (h : c.isDigit = true) : isBlank c = false := by
  have hrange : 48 ≤ c.toNat ∧ c.toNat ≤ 57 := by
    simp only [Char.isDigit, Bool.and_eq_true, decide_eq_true_eq, UInt32.le_iff_toNat_le] at h
    exact h
  simp [isBlank]
  omega

/-- There are no blanks in front of a number. -/
theorem trimStart_padded {width n : Nat} (hwidth : 0 < width) (h : n < 10 ^ width)
    (rest : List Char) : trimStart (padded width n ++ rest) = padded width n ++ rest := by
  obtain ⟨c, digits, hcons⟩ := List.exists_cons_of_ne_nil (padded_ne_nil hwidth h)
  have hc : c.isDigit = true := isDigit_of_mem_padded (hcons ▸ List.mem_cons_self)
  simp [hcons, trimStart, isBlank_of_isDigit hc]

/-! ### White space -/

/-- Whether a text holds nothing but white space. -/
def IsBlankText (cs : List Char) : Prop := ∀ c ∈ cs, isBlank c = true

instance (cs : List Char) : Decidable (IsBlankText cs) := List.decidableBAll _ cs

variable {before cs after piece : List Char}

theorem IsBlankText.append (hbefore : IsBlankText before) (hafter : IsBlankText after) :
    IsBlankText (before ++ after) := by
  intro c hc
  exact (List.mem_append.1 hc).elim (hbefore c) (hafter c)

theorem trim_eq (cs : List Char) : trim cs = (cs.dropWhile isBlank).rdropWhile isBlank := rfl

theorem trim_eq_nil_iff : trim cs = [] ↔ IsBlankText cs := by
  rw [trim_eq, List.rdropWhile_eq_nil_iff]
  constructor
  · intro h c hc
    rw [← List.takeWhile_append_dropWhile (p := isBlank) (l := cs)] at hc
    rcases List.mem_append.1 hc with hc | hc
    · exact List.mem_takeWhile_imp hc
    · exact h c hc
  · intro h c hc
    exact h c ((List.dropWhile_suffix isBlank).subset hc)

theorem dropWhile_isBlank_append (hbefore : IsBlankText before)
    (hcs : ∀ c ∈ cs, isBlank c = false) (hsome : cs ≠ []) (rest : List Char) :
    (before ++ (cs ++ rest)).dropWhile isBlank = cs ++ rest := by
  obtain ⟨first, more, rfl⟩ := List.exists_cons_of_ne_nil hsome
  rw [List.dropWhile_append_of_pos hbefore, List.cons_append,
    List.dropWhile_cons_of_neg (by simp [hcs first List.mem_cons_self])]

/-- White space around a text is trimmed. -/
theorem trim_around (hbefore : IsBlankText before) (hafter : IsBlankText after)
    (hcs : ∀ c ∈ cs, isBlank c = false) (hsome : cs ≠ []) :
    trim (before ++ cs ++ after) = cs := by
  have hback : (cs ++ after).reverse.dropWhile isBlank = cs.reverse := by
    rw [List.reverse_append, ← List.append_nil cs.reverse]
    exact dropWhile_isBlank_append (fun c hc => hafter c (List.mem_reverse.1 hc))
      (fun c hc => hcs c (List.mem_reverse.1 hc)) (by simpa using hsome) []
  rw [trim_eq, List.append_assoc, dropWhile_isBlank_append hbefore hcs hsome, List.rdropWhile,
    hback, List.reverse_reverse]

/-- Nothing but white space is trimmed. -/
theorem exists_trim (cs : List Char) :
    ∃ before after, IsBlankText before ∧ IsBlankText after ∧ cs = before ++ trim cs ++ after := by
  refine ⟨cs.takeWhile isBlank, (cs.dropWhile isBlank).rtakeWhile isBlank, ?_, ?_, ?_⟩
  · intro c hc
    exact List.mem_takeWhile_imp hc
  · intro c hc
    exact List.mem_rtakeWhile_imp hc
  · rw [trim_eq, List.append_assoc, List.rdropWhile_append_rtakeWhile,
      List.takeWhile_append_dropWhile]

/-! ### Digits -/

theorem le_ofDigitChars (digits : List Char) (value : Nat) :
    value ≤ Nat.ofDigitChars 10 digits value := by
  induction digits generalizing value with
  | nil => exact Nat.le_refl value
  | cons c digits ih =>
    rw [Nat.ofDigitChars_cons]
    exact Nat.le_trans (by omega) (ih _)

/-- Digits are read onto a value of the range exactly if the value of all of them is in the range:
    a value that has left it does not come back. -/
theorem readDigits_eq_ok_iff {range : IntegerRange} {value : Nat} {n : Int}
    (hvalue : (value : Int) ≤ range.greatest) :
    readDigits range false cs value = .ok n ↔
      (∀ c ∈ cs, isDigit c = true) ∧ n = Nat.ofDigitChars 10 cs value ∧ n ≤ range.greatest := by
  induction cs generalizing value with
  | nil =>
    simp only [readDigits, Nat.ofDigitChars_nil, Except.ok.injEq, List.not_mem_nil,
      false_implies, implies_true, true_and]
    omega
  | cons c rest ih =>
    have hnext : (value : Int) * 10 + (digitValue c : Int) = (10 * value + digitValue c : Nat) := by
      push_cast
      omega
    have hgrows := le_ofDigitChars rest (10 * value + digitValue c)
    have hcons : Nat.ofDigitChars 10 (c :: rest) value =
      Nat.ofDigitChars 10 rest (10 * value + digitValue c) := Nat.ofDigitChars_cons
    simp only [readDigits, Bool.false_eq_true, if_false, hnext, hcons, List.forall_mem_cons]
    cases hc : isDigit c with
    | false => simp
    | true =>
      by_cases hgreat : range.greatest < (10 * value + digitValue c : Nat)
      · simp only [hgreat, if_true]
        constructor
        · intro h
          cases h
        · rintro ⟨-, rfl, hn⟩
          omega
      · simp only [hgreat, if_true, if_false, true_and]
        exact ih (by omega)

/-! ### Numerals -/

/-- A number as it may be written: a plus sign or none, and digits. -/
structure Numeral where
  plus : Bool
  digits : List Char
  digits_ne_nil : digits ≠ []
  isDigit_of_mem : ∀ c ∈ digits, isDigit c = true

namespace Numeral

/-- The text of a numeral. -/
def text (numeral : Numeral) : List Char :=
  if numeral.plus then '+' :: numeral.digits else numeral.digits

/-- The number that is written. -/
def value (numeral : Numeral) : Nat := Nat.ofDigitChars 10 numeral.digits 0

theorem text_ne_nil (numeral : Numeral) : numeral.text ≠ [] := by
  simp only [text]
  split
  · exact List.cons_ne_nil _ _
  · exact numeral.digits_ne_nil

/-- The digits stand behind the sign. -/
theorem dropWhile_text (numeral : Numeral) :
    numeral.text.dropWhile (· = '+') = numeral.digits := by
  obtain ⟨plus, digits, hsome, hdigits⟩ := numeral
  obtain ⟨first, rest, rfl⟩ := List.exists_cons_of_ne_nil hsome
  have hfirst : first ≠ '+' := by
    rintro rfl
    cases hdigits '+' List.mem_cons_self
  cases plus <;> simp [text, hfirst]

theorem mem_text {numeral : Numeral} {c : Char} (hc : c ∈ numeral.text) :
    c = '+' ∨ isDigit c = true := by
  simp only [text] at hc
  split at hc
  · exact (List.mem_cons.1 hc).imp_right (numeral.isDigit_of_mem c)
  · exact Or.inr (numeral.isDigit_of_mem c hc)

theorem isBlank_of_mem_text (numeral : Numeral) : ∀ c ∈ numeral.text, isBlank c = false := by
  intro c hc
  rcases mem_text hc with rfl | hdigit
  · rfl
  · exact isBlank_of_isDigit hdigit

end Numeral

/-- A text is read as an unsigned integer exactly if it is a numeral whose value is in the range. -/
theorem readInteger_eq_ok_iff {bits : Nat} {n : Int} :
    readInteger (.unsigned bits) cs = .ok n ↔
      ∃ numeral : Numeral, cs = numeral.text ∧ n = numeral.value ∧
        n ≤ (IntegerRange.unsigned bits).greatest := by
  have hzero : ((0 : Nat) : Int) ≤ (IntegerRange.unsigned bits).greatest := by
    have hpow : 0 < Nat.pow 2 bits := Nat.two_pow_pos bits
    simp only [IntegerRange.unsigned]
    omega
  constructor
  · intro h
    -- of the six forms only two have digits to read: behind a plus sign and without a sign
    simp only [readInteger] at h
    split at h
    · cases h
    · cases h
    · cases h
    · rename_i digits hsome
      obtain ⟨hdigits, hn, hrange⟩ := (readDigits_eq_ok_iff hzero).1 h
      exact ⟨⟨true, digits, hsome, hdigits⟩, rfl, hn, hrange⟩
    · split at h
      · rename_i hbelow
        exact absurd hbelow (Int.lt_irrefl 0)
      · cases h
    · rename_i hsome _ _ _ _
      obtain ⟨hdigits, hn, hrange⟩ := (readDigits_eq_ok_iff hzero).1 h
      exact ⟨⟨false, cs, hsome, hdigits⟩, rfl, hn, hrange⟩
  · rintro ⟨⟨plus, digits, hsome, hdigits⟩, rfl, hn, hrange⟩
    have hread := (readDigits_eq_ok_iff hzero).2 ⟨hdigits, hn, hrange⟩
    obtain ⟨first, rest, rfl⟩ := List.exists_cons_of_ne_nil hsome
    cases plus with
    | true => simpa [readInteger, Numeral.text] using hread
    | false =>
      have hfirst := hdigits first List.mem_cons_self
      have hplus : first ≠ '+' := by
        rintro rfl
        cases hfirst
      have hminus : first ≠ '-' := by
        rintro rfl
        cases hfirst
      simpa [readInteger, Numeral.text, hplus, hminus] using hread

/-- Whether a piece of text writes a number: as a numeral, with white space around it. -/
def Writes (piece : List Char) (n : Nat) : Prop :=
  ∃ before numeral after, IsBlankText before ∧ IsBlankText after ∧
    piece = before ++ Numeral.text numeral ++ after ∧ numeral.value = n

/-- A piece writes a number exactly if it is a numeral once it is trimmed. -/
theorem writes_iff_trim {n : Nat} :
    Writes piece n ↔ ∃ numeral : Numeral, trim piece = numeral.text ∧ numeral.value = n := by
  constructor
  · rintro ⟨before, numeral, after, hbefore, hafter, rfl, hvalue⟩
    exact ⟨numeral, trim_around hbefore hafter numeral.isBlank_of_mem_text numeral.text_ne_nil,
      hvalue⟩
  · rintro ⟨numeral, htrim, hvalue⟩
    obtain ⟨before, after, hbefore, hafter, hpiece⟩ := exists_trim piece
    rw [htrim] at hpiece
    exact ⟨before, numeral, after, hbefore, hafter, hpiece, hvalue⟩

/-- Trimming makes no difference to the number that is written. -/
theorem writes_trim {n : Nat} : Writes (trim piece) n ↔ Writes piece n := by
  constructor
  · rintro ⟨before, numeral, after, hbefore, hafter, htrim, hvalue⟩
    obtain ⟨before', after', hbefore', hafter', hpiece⟩ := exists_trim piece
    refine ⟨before' ++ before, numeral, after ++ after', hbefore'.append hbefore,
      hafter.append hafter', ?_, hvalue⟩
    rw [hpiece, htrim]
    simp only [List.append_assoc]
  · intro h
    obtain ⟨numeral, htrim, hvalue⟩ := writes_iff_trim.1 h
    exact ⟨[], numeral, [], nofun, nofun, by simp [htrim], hvalue⟩

/-- A piece writes at most one number. -/
theorem Writes.unique {a b : Nat} (ha : Writes piece a) (hb : Writes piece b) : a = b := by
  obtain ⟨numeral, htrim, rfl⟩ := writes_iff_trim.1 ha
  obtain ⟨numeral', htrim', rfl⟩ := writes_iff_trim.1 hb
  have hdigits : numeral.digits = numeral'.digits := by
    rw [← numeral.dropWhile_text, ← htrim, htrim', numeral'.dropWhile_text]
  simp only [Numeral.value, hdigits]

/-- A number is written by its digits with any zeros, a plus sign and white space added to them. -/
theorem writes_padded (hbefore : IsBlankText before) (hafter : IsBlankText after) (plus : Bool)
    (width n : Nat) :
    Writes (before ++ (if plus then '+' :: padded width n else padded width n) ++ after) n := by
  have hsome : padded width n ≠ [] := by
    simp [padded, Nat.toDigits_ne_nil]
  exact ⟨before, ⟨plus, padded width n, hsome, fun c hc => isDigit_of_mem_padded hc⟩, after,
    hbefore, hafter, rfl, ofDigitChars_padded width n⟩

/-- A piece is read as an unsigned integer exactly if it writes one of the range. -/
theorem readInteger_trim_eq_ok_iff {bits : Nat} {n : Int} :
    readInteger (.unsigned bits) (trim piece) = .ok n ↔
      ∃ value, Writes piece value ∧ n = value ∧ n ≤ (IntegerRange.unsigned bits).greatest := by
  rw [readInteger_eq_ok_iff]
  constructor
  · rintro ⟨numeral, htrim, hn, hrange⟩
    exact ⟨numeral.value, writes_iff_trim.2 ⟨numeral, htrim, rfl⟩, hn, hrange⟩
  · rintro ⟨value, hwrites, hn, hrange⟩
    obtain ⟨numeral, htrim, rfl⟩ := writes_iff_trim.1 hwrites
    exact ⟨numeral, htrim, hn, hrange⟩

end Courier.Text
