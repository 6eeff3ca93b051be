/-
  Courier/Text/Blank.lean
  =======================
  **White space and the cutting of text.**

  Settings, schedules and status lists are cut out of longer texts by white
  space and by commas.  This file says which characters are white space (the
  Unicode property `White_Space`, which is wider than the ASCII blanks) and gives
  the three cuts everything else is written with: `trim`, `words` and `splitAt`.

  A cut loses nothing but its separators: `splitAt_cons_self` and
  `splitAt_cons_of_ne` say what it makes of each character.
-/

namespace Courier.Text

/-! ### Classes of characters -/

/-- Whether a character has the Unicode property `White_Space`. -/
def isBlank (c : Char) : Bool :=
  let n := c.toNat
  (9 ≤ n && n ≤ 13) || n == 0x20 || n == 0x85 || n == 0xA0 || n == 0x1680
    || (0x2000 ≤ n && n ≤ 0x200A) || n == 0x2028 || n == 0x2029 || n == 0x202F
    || n == 0x205F || n == 0x3000

/-- Whether a character is one of the ten ASCII digits. -/
def isDigit (c : Char) : Bool := '0' ≤ c && c ≤ '9'

/-- The value of an ASCII digit. -/
def digitValue (c : Char) : Nat := c.toNat - '0'.toNat

/-- The value of an ASCII hexadecimal digit. -/
def hexValue? (c : Char) : Option Nat :=
  if isDigit c then some (digitValue c)
  else if 'a' ≤ c && c ≤ 'f' then some (c.toNat - 'a'.toNat + 10)
  else if 'A' ≤ c && c ≤ 'F' then some (c.toNat - 'A'.toNat + 10)
  else none

/-- Whether a character is an ASCII letter. -/
def isLetter (c : Char) : Bool := ('a' ≤ c && c ≤ 'z') || ('A' ≤ c && c ≤ 'Z')

/-- ASCII letters in lower case; every other character stays. -/
def lower (c : Char) : Char :=
  if 'A' ≤ c && c ≤ 'Z' then Char.ofNat (c.toNat + 32) else c

/-- ASCII letters of a text in lower case. -/
def lowercase (cs : List Char) : List Char := cs.map lower

/-! ### Cuts -/

/-- A text without the blanks in front. -/
def trimStart (cs : List Char) : List Char := cs.dropWhile isBlank

/-- A text without the blanks at its end. -/
def trimEnd (cs : List Char) : List Char := (cs.reverse.dropWhile isBlank).reverse

/-- A text without the blanks around it. -/
def trim (cs : List Char) : List Char := trimEnd (trimStart cs)

/-- The pieces between the occurrences of a separator; always at least one. -/
def splitAt (sep : Char) : List Char → List (List Char)
  | [] => [[]]
  | c :: rest =>
    if c = sep then [] :: splitAt sep rest
    else match splitAt sep rest with
      | [] => [[c]]
      | piece :: pieces => (c :: piece) :: pieces

/-- The maximal pieces without blanks. -/
def words (cs : List Char) : List (List Char) :=
  go [] cs
where
  /-- Collects the current word in reverse. -/
  go (word : List Char) : List Char → List (List Char)
    | [] => if word.isEmpty then [] else [word.reverse]
    | c :: rest =>
      if isBlank c then
        if word.isEmpty then go [] rest else word.reverse :: go [] rest
      else go (c :: word) rest

/-- Drops a given beginning, if the text has it. -/
def dropLead? (lead : List Char) (cs : List Char) : Option (List Char) :=
  match lead, cs with
  | [], rest => some rest
  | l :: ls, c :: rest => if l = c then dropLead? ls rest else none
  | _ :: _, [] => none

/-- Replaces every occurrence of a pattern, from left to right and without overlap. -/
def replace (pattern by_ : List Char) (cs : List Char) : List Char :=
  go cs.length cs
where
  /-- The first argument bounds the number of characters left. -/
  go : Nat → List Char → List Char
    | 0, cs => cs
    | _ + 1, [] => []
    | n + 1, c :: rest =>
      match dropLead? pattern (c :: rest) with
      | some after => if pattern.isEmpty then c :: go n rest else by_ ++ go n after
      | none => c :: go n rest

/-- Pieces put together with a separator between them. -/
def joinWith (sep : List Char) : List (List Char) → List Char
  | [] => []
  | [piece] => piece
  | piece :: pieces => piece ++ sep ++ joinWith sep pieces

theorem splitAt_cons_self (sep : Char) (rest : List Char) :
    splitAt sep (sep :: rest) = [] :: splitAt sep rest := by
  simp [splitAt]

theorem splitAt_cons_of_ne {sep c : Char} {rest piece : List Char} {pieces : List (List Char)}
    (hc : c ≠ sep) (h : splitAt sep rest = piece :: pieces) :
    splitAt sep (c :: rest) = (c :: piece) :: pieces := by
  simp [splitAt, hc, h]

theorem splitAt_ne_nil (sep : Char) (cs : List Char) : splitAt sep cs ≠ [] := by
  induction cs with
  | nil => simp [splitAt]
  | cons c rest ih =>
    unfold splitAt
    split
    · simp
    · split <;> simp

/-! ### The same cuts on strings -/

/-- A string without the blanks around it. -/
def trimmed (s : String) : String := String.ofList (trim s.toList)

/-- ASCII letters of a string in lower case. -/
def lowercased (s : String) : String := String.ofList (lowercase s.toList)

/-- A number padded with zeros to a width. -/
def padded (width : Nat) (n : Nat) : List Char :=
  let digits := Nat.toDigits 10 n
  List.replicate (width - digits.length) '0' ++ digits

end Courier.Text
