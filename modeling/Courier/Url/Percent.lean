/-
  Courier/Url/Percent.lean
  ========================
  **Percent-encoding.**

  Each part of a URL keeps some characters and writes the UTF-8 bytes of the
  others as `%` with two hexadecimal digits.  An `EncodeSet` says which ASCII
  characters a part encodes; control characters and everything outside ASCII are
  always encoded.
-/
import Courier.Text.Blank

namespace Courier.Url

open Courier.Text

/-- Whether a part of a URL encodes a printable ASCII character. -/
abbrev EncodeSet := Char → Bool

/-- Nothing but control characters is encoded. -/
def controlSet : EncodeSet := fun _ => false

/-- What a fragment encodes. -/
def fragmentSet : EncodeSet := fun c => c = ' ' || c = '"' || c = '<' || c = '>' || c = '\x60'

/-- What a path encodes. -/
def pathSet : EncodeSet := fun c =>
  fragmentSet c || c = '#' || c = '?' || c = '\x7b' || c = '\x7d'

/-- What a user name and a password encode. -/
def userinfoSet : EncodeSet := fun c =>
  pathSet c || c = '/' || c = ':' || c = ';' || c = '=' || c = '@' || c = '[' || c = '\\'
    || c = ']' || c = '^' || c = '|'

/-- What a query encodes; queries of the special schemes encode the apostrophe as well. -/
def querySet (special : Bool) : EncodeSet := fun c =>
  c = ' ' || c = '"' || c = '#' || c = '<' || c = '>' || (special && c = '\'')

/-- A hexadecimal digit in upper case. -/
def upperHex (n : Nat) : Char :=
  if n < 10 then Char.ofNat ('0'.toNat + n) else Char.ofNat ('A'.toNat + (n - 10))

/-- A byte as `%` with two hexadecimal digits. -/
def percentByte (b : UInt8) : List Char :=
  ['%', upperHex (b.toNat / 16), upperHex (b.toNat % 16)]

/-- Whether a character is encoded. -/
def mustEncode (set : EncodeSet) (c : Char) : Bool :=
  c.toNat < 0x20 || 0x7f ≤ c.toNat || set c

/-- A character as it stands in a part of a URL. -/
def encodeChar (set : EncodeSet) (c : Char) : List Char :=
  if mustEncode set c then (String.utf8EncodeChar c).flatMap percentByte else [c]

/-- A text as it stands in a part of a URL. -/
def encode (set : EncodeSet) (cs : List Char) : List Char := cs.flatMap (encodeChar set)

/-- The bytes of a text in which percent-encoded bytes are decoded. -/
def decodeBytes : List Char → List UInt8
  | [] => []
  | '%' :: a :: b :: rest =>
    match hexValue? a, hexValue? b with
    | some x, some y => UInt8.ofNat (16 * x + y) :: decodeBytes rest
    | _, _ => '%'.toNat.toUInt8 :: decodeBytes (a :: b :: rest)
  | c :: rest => String.utf8EncodeChar c ++ decodeBytes rest

/-- A text that needs no encoding stands as it is. -/
theorem encode_eq_self {set : EncodeSet} {cs : List Char}
    (h : ∀ c ∈ cs, mustEncode set c = false) : encode set cs = cs := by
  induction cs with
  | nil => rfl
  | cons c rest ih =>
    have hc := h c List.mem_cons_self
    have hrest := ih fun d hd => h d (List.mem_cons_of_mem _ hd)
    simp only [encode, List.flatMap_cons] at hrest ⊢
    rw [hrest]
    simp [encodeChar, hc]

end Courier.Url
