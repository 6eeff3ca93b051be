/-
  Courier/Time/Rfc3339.lean
  =========================
  **The text of an instant.**

  An instant is written in Coordinated Universal Time with a fraction of 0, 3, 6
  or 9 digits, the fewest that lose nothing (`Instant.toText`).  Reading is more
  liberal than writing (`Instant.ofText?`): any offset, any number of fraction
  digits of which nine count, blanks between the fields, and `t` or a blank in
  place of `T`.
-/
import Courier.Text.Blank
import Courier.Time.Civil

namespace Courier.Time

open Courier.Text

/-! ### Writing -/

/-- A year: four digits, with a sign when that does not suffice. -/
def yearText (year : Int) : List Char :=
  if 0 ≤ year ∧ year ≤ 9999 then padded 4 year.toNat
  else if year < 0 then '-' :: padded 4 year.natAbs
  else '+' :: padded 4 year.natAbs

/-- A date as `2024-01-31`. -/
def Date.text (d : Date) : List Char :=
  yearText d.year ++ '-' :: padded 2 d.month ++ '-' :: padded 2 d.day

/-- The fraction of a second in the fewest of 0, 3, 6 and 9 digits. -/
def fractionText (nanos : Nat) : List Char :=
  if nanos = 0 then []
  else if nanos % 1000000 = 0 then '.' :: padded 3 (nanos / 1000000)
  else if nanos % 1000 = 0 then '.' :: padded 6 (nanos / 1000)
  else '.' :: padded 9 nanos

/-- A time of day as `13:05:00`, without its fraction. -/
def Civil.clockText (c : Civil) : List Char :=
  padded 2 c.hour ++ ':' :: padded 2 c.minute ++ ':' :: padded 2 c.second

/-- A date and time with a separator between them and the fraction behind. -/
def Civil.text (separator : Char) (c : Civil) : List Char :=
  c.date.text ++ separator :: c.clockText ++ fractionText c.nanos

namespace Instant

/-- The text of an instant, as `2024-01-31T13:05:00.250Z`. -/
def toText (t : Instant) : String := String.ofList (t.civil.text 'T' ++ ['Z'])

/-- The text of an instant with the offset in figures, as `2024-01-31T13:05:00+00:00`. -/
def toOffsetText (t : Instant) : String :=
  String.ofList (t.civil.text 'T' ++ "+00:00".toList)

/-- The text of an instant cut to its second, as `2024-01-31T13:05:00Z`. -/
def toSecondsText (t : Instant) : String :=
  String.ofList (t.civil.date.text ++ 'T' :: t.civil.clockText ++ ['Z'])

/-- The text of an instant for people, as `2024-01-31 13:05:00 UTC`. -/
def toReadableText (t : Instant) : String :=
  String.ofList (t.civil.text ' ' ++ " UTC".toList)

/-- The date and time of an instant without fraction or zone, as `2024-01-31 13:05:00`. -/
def toPlainText (t : Instant) : String :=
  String.ofList (t.civil.date.text ++ ' ' :: t.civil.clockText)

end Instant

/-! ### Reading -/

/-- The value of a run of digits. -/
def digitsValue (cs : List Char) : Nat := cs.foldl (fun n c => n * 10 + digitValue c) 0

/-- Reads between one and `most` digits. -/
def readDigits? (most : Nat) (cs : List Char) : Option (Nat × List Char) :=
  let digits := (cs.take most).takeWhile isDigit
  if digits.isEmpty then none else some (digitsValue digits, cs.drop digits.length)

/-- Reads a field of one or two digits behind any blanks. -/
def readField? (cs : List Char) : Option (Nat × List Char) := readDigits? 2 (trimStart cs)

/-- Reads one given character behind any blanks. -/
def readMark? (mark : Char) (cs : List Char) : Option (List Char) :=
  match trimStart cs with
  | c :: rest => if c = mark then some rest else none
  | [] => none

/-- Reads a year behind any blanks: up to four digits, or any number of them behind a sign. -/
def readYear? (cs : List Char) : Option (Int × List Char) :=
  match trimStart cs with
  | '-' :: rest => (readDigits? rest.length rest).map fun (n, rest) => (-(n : Int), rest)
  | '+' :: rest => (readDigits? rest.length rest).map fun (n, rest) => ((n : Int), rest)
  | rest => (readDigits? 4 rest).map fun (n, rest) => ((n : Int), rest)

/-- Reads a fraction of a second, if there is one, as nanoseconds; digits past the ninth are
    dropped. -/
def readFraction? (cs : List Char) : Option (Nat × List Char) :=
  match cs with
  | '.' :: rest =>
    match readDigits? 9 rest with
    | some (_, _) =>
      let digits := (rest.take 9).takeWhile isDigit
      some (digitsValue digits * Nat.pow 10 (9 - digits.length),
        (rest.drop digits.length).dropWhile isDigit)
    | none => none
  | _ => some (0, cs)

/-- Reads an offset from Coordinated Universal Time, in seconds. -/
def readOffset? (cs : List Char) : Option (Int × List Char) :=
  match cs with
  | 'Z' :: rest | 'z' :: rest => some (0, rest)
  | sign :: h1 :: h2 :: rest =>
    if lowercase [sign, h1, h2] = ['u', 't', 'c'] then some (0, rest)
    else
      let negative? : Option Bool :=
        if sign = '+' then some false
        else if sign = '-' ∨ sign = '−' then some true else none
      match negative?, rest.dropWhile (fun c => c == ':' || isBlank c) with
      | some negative, m1 :: m2 :: after =>
        if isDigit h1 ∧ isDigit h2 ∧ isDigit m1 ∧ isDigit m2 ∧ digitValue m1 ≤ 5 then
          let seconds : Int := digitsValue [h1, h2] * 3600 + digitsValue [m1, m2] * 60
          if seconds < 86400 then some (if negative then -seconds else seconds, after) else none
        else none
      | _, _ => none
  | _ => none

/-- The years that an instant may be written in. -/
def leastYear : Int := -262143
/-- The last year that an instant may be written in. -/
def greatestYear : Int := 262142

/-- Reads the text of an instant.  A 60th second is the first of the next minute. -/
def Instant.ofText? (s : String) : Option Instant := do
  let (year, cs) ← readYear? s.toList
  let cs ← readMark? '-' cs
  let (month, cs) ← readField? cs
  let cs ← readMark? '-' cs
  let (day, cs) ← readField? cs
  let cs ← match cs with
    | 'T' :: rest | 't' :: rest | ' ' :: rest => some rest
    | _ => none
  let (hour, cs) ← readField? cs
  let cs ← readMark? ':' cs
  let (minute, cs) ← readField? cs
  let cs ← readMark? ':' cs
  let (second, cs) ← readField? cs
  let (nanos, cs) ← readFraction? cs
  let (offset, cs) ← readOffset? (trimStart cs)
  guard (trimStart cs).isEmpty
  let date : Date := ⟨year, month, day⟩
  guard (leastYear ≤ year ∧ year ≤ greatestYear ∧ date.Valid)
  guard (hour ≤ 23 ∧ minute ≤ 59 ∧ second ≤ 60)
  let civil : Civil := { date, hour, minute, second, nanos }
  return civil.instant - Span.ofSeconds offset

end Courier.Time
