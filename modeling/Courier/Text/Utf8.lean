/-
  Courier/Text/Utf8.lean
  ======================
  **Bytes that should be UTF-8.**

  Bytes from outside are read as characters one at a time (`Utf8.lead`).  Bytes
  that begin no character are a fault of one to three bytes: as many as began like
  a character.  `Utf8.fault?` finds the first fault, and `Utf8.lossy` reads on and
  puts the replacement character in the place of each.
-/

namespace Courier.Text.Utf8

/-- What bytes begin with. -/
inductive Lead where
  | char (c : Char) (width : Nat)
  /-- Bytes that begin no character. -/
  | invalid (width : Nat)
  /-- The bytes end within a character. -/
  | incomplete
deriving DecidableEq, Repr

/-- Whether a byte may go on a character. -/
def continues (b : UInt8) : Bool := 0x80 ≤ b && b ≤ 0xBF

/-- The number of bytes of a character and the range of its second byte, by its first byte. -/
def shape (first : UInt8) : Option (Nat × UInt8 × UInt8) :=
  if 0xC2 ≤ first && first ≤ 0xDF then some (2, 0x80, 0xBF)
  else if first = 0xE0 then some (3, 0xA0, 0xBF)
  else if first = 0xED then some (3, 0x80, 0x9F)
  else if 0xE1 ≤ first && first ≤ 0xEF then some (3, 0x80, 0xBF)
  else if first = 0xF0 then some (4, 0x90, 0xBF)
  else if first = 0xF4 then some (4, 0x80, 0x8F)
  else if 0xF1 ≤ first && first ≤ 0xF3 then some (4, 0x80, 0xBF)
  else none

/-- Reads the bytes that go on a character.  `seen` bytes have been read, `missing` are to come and
    `value` is the code so far. -/
def rest (seen value : Nat) : Nat → List UInt8 → Lead
  | 0, _ => .char (Char.ofNat value) seen
  | _ + 1, [] => .incomplete
  | missing + 1, b :: bs =>
    if continues b then rest (seen + 1) (value * 64 + b.toNat % 64) missing bs
    else .invalid seen

/-- What bytes begin with, given the first of them. -/
def lead (first : UInt8) (bs : List UInt8) : Lead :=
  if first < 0x80 then .char (Char.ofNat first.toNat) 1
  else match shape first with
    | none => .invalid 1
    | some (width, least, greatest) =>
      match bs with
      | [] => .incomplete
      | b :: _ =>
        if least ≤ b && b ≤ greatest then
          rest 1 (first.toNat % Nat.pow 2 (7 - width)) (width - 1) bs
        else .invalid 1

/-- The wording of the first fault of bytes, of which `index` were read before. -/
def faultFrom? (index : Nat) : Nat → List UInt8 → Option String
  | 0, _ => none
  | _ + 1, [] => none
  | n + 1, b :: bs =>
    match lead b bs with
    | .char _ width => faultFrom? (index + width) n (bs.drop (width - 1))
    | .invalid width => some s!"invalid utf-8 sequence of {width} bytes from index {index}"
    | .incomplete => some s!"incomplete utf-8 byte sequence from index {index}"

/-- The wording of the first fault of bytes. -/
def fault? (bs : List UInt8) : Option String := faultFrom? 0 bs.length bs

/-- Reads at most a number of characters. -/
def lossyFor : Nat → List UInt8 → List Char
  | 0, _ => []
  | _ + 1, [] => []
  | n + 1, b :: bs =>
    match lead b bs with
    | .char c width => c :: lossyFor n (bs.drop (width - 1))
    | .invalid width => '\ufffd' :: lossyFor n (bs.drop (width - 1))
    | .incomplete => ['\ufffd']

/-- Reads bytes as characters, the replacement character in the place of each fault. -/
def lossy (bs : List UInt8) : List Char := lossyFor bs.length bs

end Courier.Text.Utf8
