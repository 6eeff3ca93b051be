/-
  Courier/Toml/Scalar.lean
  ========================
  **The strings, numbers and dates of TOML.**

  Every reader takes the text at a value and answers with what it read and the
  rest, or with nothing if the text there is not of its form.
-/
import Courier.Text.Blank
import Courier.Time.Civil
import Courier.Toml.Basic

namespace Courier.Toml

open Courier.Text

/-! ### Characters -/

/-- Whether a character is a blank within a line. -/
def isLineBlank (c : Char) : Bool := c = ' ' || c = '\t'

/-- Whether a character may stand in a line: a tab or no control character. -/
def isTextChar (c : Char) : Bool := c = '\t' || (0x20 ≤ c.toNat && c.toNat ≠ 0x7f)

/-- A text without the blanks in front. -/
def skipBlanks (cs : List Char) : List Char := cs.dropWhile isLineBlank

/-- Reads a line break. -/
def newline? : List Char → Option (List Char)
  | '\n' :: rest => some rest
  | '\r' :: '\n' :: rest => some rest
  | _ => none

/-! ### Strings -/

/-- Reads a number of hexadecimal digits as a character. -/
def unicode? (digits : Nat) (cs : List Char) : Option (Char × List Char) := do
  let text := cs.take digits
  guard (text.length = digits)
  let values ← text.mapM hexValue?
  let n := values.foldl (fun n d => n * 16 + d) 0
  guard (n.isValidChar)
  return (Char.ofNat n, cs.drop digits)

/-- Reads what follows a backslash. -/
def escape? : List Char → Option (Char × List Char)
  | 'b' :: rest => some ('\x08', rest)
  | 't' :: rest => some ('\t', rest)
  | 'n' :: rest => some ('\n', rest)
  | 'f' :: rest => some ('\x0c', rest)
  | 'r' :: rest => some ('\r', rest)
  | '"' :: rest => some ('"', rest)
  | '\\' :: rest => some ('\\', rest)
  | 'u' :: rest => unicode? 4 rest
  | 'U' :: rest => unicode? 8 rest
  | _ => none

/-- Reads a string of one line up to its quote; the first argument bounds its length. -/
def basic? : Nat → List Char → Option (List Char × List Char)
  | 0, _ => none
  | _ + 1, [] => none
  | _ + 1, '"' :: rest => some ([], rest)
  | n + 1, '\\' :: rest => do
    let (c, rest) ← escape? rest
    let (cs, rest) ← basic? n rest
    return (c :: cs, rest)
  | n + 1, c :: rest => do
    guard (isTextChar c)
    let (cs, rest) ← basic? n rest
    return (c :: cs, rest)

/-- Reads a string of one line without escapes up to its quote. -/
def literal? (cs : List Char) : Option (List Char × List Char) :=
  let text := cs.takeWhile fun c => c ≠ '\'' && isTextChar c
  match cs.drop text.length with
  | '\'' :: rest => some (text, rest)
  | _ => none

/-- A line break and the blanks and line breaks that follow it, which a backslash swallows. -/
def foldedBreak? (cs : List Char) : Option (List Char) :=
  (newline? (skipBlanks cs)).map fun rest => go rest.length rest
where
  /-- The first argument bounds the number of characters. -/
  go : Nat → List Char → List Char
    | 0, cs => cs
    | n + 1, cs =>
      let cs := skipBlanks cs
      match newline? cs with
      | some rest => go n rest
      | none => cs

/-- Reads the quotes at the end of a string of several lines: three close it, and up to two more
    belong to it. -/
def closing? (quote : Char) (cs : List Char) : Option (List Char × List Char) :=
  let quotes := (cs.take 5).takeWhile (· = quote)
  if quotes.length < 3 then none
  else some (List.replicate (quotes.length - 3) quote, cs.drop quotes.length)

/-- Reads a string of several lines up to its quotes; `escapes` says whether backslashes have a
    meaning, and the first argument bounds the length. -/
def lines? (quote : Char) (escapes : Bool) : Nat → List Char → Option (List Char × List Char)
  | 0, _ => none
  | n + 1, cs =>
    match closing? quote cs with
    | some closed => some closed
    | none =>
      match cs with
      | [] => none
      | c :: rest =>
        let more (front : List Char) (rest : List Char) := do
          let (cs, rest) ← lines? quote escapes n rest
          return (front ++ cs, rest)
        if c = '\\' ∧ escapes then
          match escape? rest with
          | some (c, rest) => more [c] rest
          | none => (foldedBreak? rest).bind (more [])
        else
          match newline? (c :: rest) with
          | some rest => more ['\n'] rest
          | none => if isTextChar c then more [c] rest else none

/-- Reads a string of several lines behind its opening quotes, where a first line break does not
    count. -/
def multiline? (quote : Char) (escapes : Bool) (cs : List Char) :
    Option (List Char × List Char) :=
  let cs := (newline? cs).getD cs
  lines? quote escapes (cs.length + 1) cs

/-- Reads a string in any of its four forms. -/
def string? : List Char → Option (List Char × List Char)
  | '"' :: '"' :: '"' :: rest => multiline? '"' true rest
  | '\'' :: '\'' :: '\'' :: rest => multiline? '\'' false rest
  | '"' :: rest => basic? (rest.length + 1) rest
  | '\'' :: rest => literal? rest
  | _ => none

/-! ### Numbers -/

/-- Reads digits of a radix, between which single underscores may stand. -/
def digits? (radix : Nat) (cs : List Char) : Option (List Nat × List Char) :=
  let digit? (c : Char) := (hexValue? c).filter (· < radix)
  match cs with
  | [] => none
  | c :: rest => do
    let first ← digit? c
    let (more, rest) := go digit? rest.length rest
    return (first :: more, rest)
where
  /-- The first argument bounds the number of digits. -/
  go (digit? : Char → Option Nat) : Nat → List Char → List Nat × List Char
    | 0, cs => ([], cs)
    | n + 1, cs =>
      let after := match cs with
        | '_' :: rest => rest
        | cs => cs
      match after with
      | [] => ([], cs)
      | c :: rest =>
        match digit? c with
        | some d =>
          let (more, rest) := go digit? n rest
          (d :: more, rest)
        | none => ([], cs)

/-- The number that digits of a radix write. -/
def ofDigits (radix : Nat) (digits : List Nat) : Nat := digits.foldl (fun n d => n * radix + d) 0

/-- Reads a sign, if there is one; answers whether it is a minus. -/
def sign (cs : List Char) : Bool × List Char :=
  match cs with
  | '-' :: rest => (true, rest)
  | '+' :: rest => (false, rest)
  | cs => (false, cs)

/-- Reads decimal digits without superfluous zeros in front. -/
def decimal? (cs : List Char) : Option (List Nat × List Char) := do
  let (digits, rest) ← digits? 10 cs
  if digits.head? = some 0 then some ([0], cs.drop 1) else some (digits, rest)

/-- An integer of 64 bits. -/
def intValue? (n : Int) : Option Toml :=
  if -(Nat.pow 2 63 : Int) ≤ n ∧ n < Nat.pow 2 63 then some (.int n) else none

/-- Reads an integer. -/
def integer? (cs : List Char) : Option (Toml × List Char) :=
  let radix? : Option (Nat × List Char) := match cs with
    | '0' :: 'x' :: rest => some (16, rest)
    | '0' :: 'o' :: rest => some (8, rest)
    | '0' :: 'b' :: rest => some (2, rest)
    | _ => none
  match radix? with
  | some (radix, rest) => do
    let (digits, rest) ← digits? radix rest
    return (← intValue? (ofDigits radix digits), rest)
  | none => do
    let (negative, rest) := sign cs
    let (digits, rest) ← decimal? rest
    let n : Int := ofDigits 10 digits
    return (← intValue? (if negative then -n else n), rest)

/-- Whether a decimal number is too large for a float of 64 bits. -/
def overflowsFloat (digits : List Nat) (exponent : Int) : Bool :=
  let n := ofDigits 10 digits
  let size := (digits.dropWhile (· = 0)).length + exponent
  if n = 0 ∨ size < 300 then false
  else if 320 < size then true
  else
    let limit := Nat.pow 2 1024 - Nat.pow 2 970
    if 0 ≤ exponent then limit ≤ n * Nat.pow 10 exponent.toNat
    else limit * Nat.pow 10 (-exponent).toNat ≤ n

/-- Reads an exponent, if there is one. -/
def exponent? (cs : List Char) : Option (Int × List Char) :=
  match cs with
  | 'e' :: rest | 'E' :: rest => do
    let (negative, rest) := sign rest
    let (digits, rest) ← digits? 10 rest
    let n : Int := ofDigits 10 digits
    return (if negative then -n else n, rest)
  | _ => none

/-- Reads a float. -/
def float? (cs : List Char) : Option (Toml × List Char) :=
  let (negative, rest) := sign cs
  match rest with
  | 'i' :: 'n' :: 'f' :: rest => some (.float, rest)
  | 'n' :: 'a' :: 'n' :: rest => some (.float, rest)
  | _ => do
    let (whole, rest) ← decimal? rest
    let (fraction, rest) ← match rest with
      | '.' :: rest => digits? 10 rest
      | rest => if (exponent? rest).isSome then some ([], rest) else none
    let (exponent, rest) ← match rest with
      | 'e' :: _ | 'E' :: _ => exponent? rest
      | rest => some (0, rest)
    guard (negative ∨ overflowsFloat (whole ++ fraction) (exponent - fraction.length) = false)
    return (.float, rest)

/-! ### Dates and times -/

/-- Reads a number of exactly so many digits. -/
def fixed? (count : Nat) (cs : List Char) : Option (Nat × List Char) :=
  let digits := cs.take count
  if digits.length = count ∧ digits.all isDigit then
    some (digits.foldl (fun n c => n * 10 + digitValue c) 0, cs.drop count)
  else none

/-- Reads one given character. -/
def mark? (mark : Char) : List Char → Option (List Char)
  | c :: rest => if c = mark then some rest else none
  | [] => none

/-- Reads a date. -/
def date? (cs : List Char) : Option (List Char) := do
  let (year, cs) ← fixed? 4 cs
  let cs ← mark? '-' cs
  let (month, cs) ← fixed? 2 cs
  let cs ← mark? '-' cs
  let (day, cs) ← fixed? 2 cs
  guard (Time.Date.Valid ⟨year, month, day⟩)
  return cs

/-- Reads hours and minutes. -/
def hourMinute? (cs : List Char) : Option (List Char) := do
  let (hour, cs) ← fixed? 2 cs
  let cs ← mark? ':' cs
  let (minute, cs) ← fixed? 2 cs
  guard (hour ≤ 23 ∧ minute ≤ 59)
  return cs

/-- Reads a time of day. -/
def time? (cs : List Char) : Option (List Char) := do
  let cs ← mark? ':' (← hourMinute? cs)
  let (second, cs) ← fixed? 2 cs
  guard (second ≤ 60)
  match cs with
  | '.' :: rest =>
    let digits := rest.takeWhile isDigit
    guard (!digits.isEmpty)
    return rest.drop digits.length
  | cs => return cs

/-- Reads an offset, if there is one. -/
def offset? (cs : List Char) : Option (List Char) :=
  match cs with
  | 'Z' :: rest | 'z' :: rest => some rest
  | '+' :: rest | '-' :: rest => hourMinute? rest
  | cs => some cs

/-- Reads a date, a time or both. -/
def datetime? (cs : List Char) : Option (Toml × List Char) :=
  match date? cs with
  | none => (time? cs).map fun rest => (.datetime, rest)
  | some rest =>
    match rest with
    | 'T' :: after | 't' :: after => do
      let rest ← offset? (← time? after)
      return (.datetime, rest)
    | ' ' :: after =>
      match time? after with
      | some after => (offset? after).map fun rest => (.datetime, rest)
      | none => some (.datetime, rest)
    | rest => some (.datetime, rest)

end Courier.Toml
