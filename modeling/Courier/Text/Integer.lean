/-
  Courier/Text/Integer.lean
  =========================
  **Decimal integers of a bounded range.**

  Settings carry integers as text.  A text is an optional sign followed by ASCII
  digits; the minus sign belongs to ranges that reach below zero only.  The digits
  are read from left to right and the first fault found is the one reported, so a
  text that leaves the range before its first foreign character is out of range.
-/
import Courier.Text.Blank

namespace Courier.Text

/-- Why a text is no integer of the range. -/
inductive IntegerFault where
  | empty
  | invalidDigit
  | tooLarge
  | tooSmall
deriving DecidableEq, Repr

/-- The wording of a fault. -/
def IntegerFault.message : IntegerFault → String
  | .empty => "cannot parse integer from empty string"
  | .invalidDigit => "invalid digit found in string"
  | .tooLarge => "number too large to fit in target type"
  | .tooSmall => "number too small to fit in target type"

/-- The integers from `least` to `greatest`. -/
structure IntegerRange where
  least : Int
  greatest : Int
deriving DecidableEq, Repr

namespace IntegerRange

/-- The signed integers of a number of bits. -/
def signed (bits : Nat) : IntegerRange := ⟨-(Nat.pow 2 (bits - 1) : Int), Nat.pow 2 (bits - 1) - 1⟩

/-- The unsigned integers of a number of bits. -/
def unsigned (bits : Nat) : IntegerRange := ⟨0, Nat.pow 2 bits - 1⟩

/-- Whether an integer lies in the range. -/
def Contains (r : IntegerRange) (n : Int) : Prop := r.least ≤ n ∧ n ≤ r.greatest

instance (r : IntegerRange) (n : Int) : Decidable (r.Contains n) :=
  inferInstanceAs (Decidable (_ ∧ _))

end IntegerRange

/-- Reads digits onto a value that grows away from zero, upwards or downwards. -/
def readDigits (range : IntegerRange) (negative : Bool) :
    List Char → Int → Except IntegerFault Int
  | [], value => .ok value
  | c :: rest, value =>
    if isDigit c then
      let digit : Int := digitValue c
      if negative then
        let value := value * 10 - digit
        if value < range.least then .error .tooSmall else readDigits range negative rest value
      else
        let value := value * 10 + digit
        if range.greatest < value then .error .tooLarge else readDigits range negative rest value
    else .error .invalidDigit

/-- Reads a whole text as an integer of the range. -/
def readInteger (range : IntegerRange) : List Char → Except IntegerFault Int
  | [] => .error .empty
  | ['+'] => .error .invalidDigit
  | ['-'] => .error .invalidDigit
  | '+' :: digits => readDigits range false digits 0
  | '-' :: digits =>
    if range.least < 0 then readDigits range true digits 0 else .error .invalidDigit
  | digits => readDigits range false digits 0

/-- Every integer that is read lies in the range. -/
theorem readDigits_contains {range : IntegerRange} {negative : Bool} {cs : List Char}
    {value n : Int} (hv : range.Contains value) (h0 : value ≤ 0 ∨ negative = false)
    (h1 : 0 ≤ value ∨ negative = true) (h : readDigits range negative cs value = .ok n) :
    range.Contains n := by
  induction cs generalizing value with
  | nil =>
    simp only [readDigits, Except.ok.injEq] at h
    exact h ▸ hv
  | cons c rest ih =>
    simp only [readDigits] at h
    obtain ⟨hl, hg⟩ := hv
    split at h
    · cases negative with
      | false =>
        simp only [Bool.false_eq_true, if_false, or_false, or_true] at h h0 h1
        split at h
        · cases h
        · rename_i hlt
          exact ih ⟨by omega, by omega⟩ (by simp) (by left; omega) h
      | true =>
        simp only [if_true, or_true, Bool.true_eq_false, or_false] at h h0 h1
        split at h
        · cases h
        · rename_i hlt
          exact ih ⟨by omega, by omega⟩ (by left; omega) (by simp) h
    · cases h

end Courier.Text
