/-
  Courier/Url/Host.lean
  =====================
  **Hosts: names, IPv4 and IPv6 addresses.**

  A host in brackets is an IPv6 address.  In the special schemes any other host is
  decoded, mapped to a domain name in ASCII and, if the last label of the name is a
  number, read as an IPv4 address in decimal, octal or hexadecimal parts; in all other
  schemes it is an opaque text.  The mapping to ASCII goes by tables of characters and
  is a parameter (`DomainToAscii`).
-/
import Courier.Text.Integer
import Courier.Url.Percent

namespace Courier.Url

open Courier.Text

/-- Why a text is no URL. -/
inductive Fault where
  | emptyHost
  | invalidDomain
  | invalidDomainCharacter
  | invalidPort
  | invalidIpv4
  | invalidIpv6
  | relativeWithoutBase
  | baseIsOpaque
deriving DecidableEq, Repr

/-- The wording of a fault. -/
def Fault.message : Fault → String
  | .emptyHost => "empty host"
  | .invalidDomain => "invalid international domain name"
  | .invalidDomainCharacter => "invalid domain character"
  | .invalidPort => "invalid port number"
  | .invalidIpv4 => "invalid IPv4 address"
  | .invalidIpv6 => "invalid IPv6 address"
  | .relativeWithoutBase => "relative URL without a base"
  | .baseIsOpaque => "relative URL with a cannot-be-a-base base"

/-- A host.  The empty name stands for no host. -/
inductive Host where
  | name (text : List Char)
  /-- The four bytes of an IPv4 address as one number. -/
  | ipv4 (address : Nat)
  /-- The eight pieces of an IPv6 address. -/
  | ipv6 (pieces : List Nat)
deriving DecidableEq, Repr

/-! ### IPv4 -/

/-- Reads one part of an IPv4 address: decimal, octal after `0`, hexadecimal after `0x`. -/
def ipv4Number? (part : List Char) : Option Nat :=
  let (radix, digits) := match part with
    | '0' :: 'x' :: rest | '0' :: 'X' :: rest => (16, rest)
    | '0' :: c :: rest => (8, c :: rest)
    | _ => (10, part)
  if part.isEmpty then none
  else
    digits.foldl (fun n c => do
      let n ← n
      let d ← hexValue? c
      if d < radix then some (n * radix + d) else none) (some 0)

/-- The parts of a dotted name, without an empty last one. -/
def dottedParts (name : List Char) : List (List Char) :=
  let parts := splitAt '.' name
  if parts.getLast? = some [] then parts.dropLast else parts

/-- Whether the last label of a name is a number, so that the name must be an address. -/
def endsInNumber (name : List Char) : Bool :=
  match (dottedParts name).getLast? with
  | none => false
  | some last => (!last.isEmpty && last.all isDigit) || (ipv4Number? last).isSome

/-- Reads an IPv4 address of up to four parts, of which the last fills what is left. -/
def ipv4? (name : List Char) : Option Nat := do
  let parts := dottedParts name
  guard (parts.length ≤ 4)
  let numbers ← parts.mapM ipv4Number?
  let last ← numbers.getLast?
  let front := numbers.dropLast
  guard (last < Nat.pow 256 (4 - front.length) ∧ front.all (· ≤ 255))
  return (front.zipIdx.foldl (fun n (part, i) => n + part * Nat.pow 256 (3 - i)) last)

/-- The text of an IPv4 address. -/
def ipv4Text (address : Nat) : List Char :=
  joinWith ['.'] ([3, 2, 1, 0].map fun i => Nat.toDigits 10 (address / Nat.pow 256 i % 256))

/-! ### IPv6 -/

/-- The pieces of an IPv6 address read so far. -/
structure Ipv6Progress where
  pieces : List Nat := []
  /-- How many pieces stood before the run of zeros that was left out. -/
  gap : Option Nat := none
deriving Repr

/-- Reads the dotted decimal end of an IPv6 address as two pieces. -/
def dottedPieces? (cs : List Char) : Option (List Nat) := do
  let parts := splitAt '.' cs
  guard (parts.length = 4)
  let numbers ← parts.mapM fun part => do
    guard (!part.isEmpty ∧ part.all isDigit ∧ part.length ≤ 3)
    guard (part.head? ≠ some '0' ∨ part.length = 1)
    let n := part.foldl (fun n c => n * 10 + digitValue c) 0
    guard (n ≤ 255)
    return n
  match numbers with
  | [a, b, c, d] => some [256 * a + b, 256 * c + d]
  | _ => none

/-- Reads the pieces of an IPv6 address; the first argument bounds their number. -/
def ipv6Pieces : Nat → Ipv6Progress → List Char → Option Ipv6Progress
  | _, progress, [] => some progress
  | 0, _, _ => none
  | n + 1, progress, ':' :: rest =>
    if progress.gap.isSome then none
    else ipv6Pieces n { progress with gap := some progress.pieces.length } rest
  | n + 1, progress, cs =>
    let digits := (cs.take 4).takeWhile fun c => (hexValue? c).isSome
    let value := digits.foldl (fun v c => v * 16 + (hexValue? c).getD 0) 0
    match cs.drop digits.length with
    | [] => some { progress with pieces := progress.pieces ++ [value] }
    | '.' :: _ =>
      if digits.isEmpty then none
      else (dottedPieces? cs).map fun end_ =>
        { progress with pieces := progress.pieces ++ end_ }
    | ':' :: rest =>
      if rest.isEmpty then none
      else ipv6Pieces n { progress with pieces := progress.pieces ++ [value] } rest
    | _ => none

/-- Reads an IPv6 address. -/
def ipv6? (cs : List Char) : Option (List Nat) := do
  let progress ← match cs with
    | ':' :: ':' :: rest => ipv6Pieces 9 { gap := some 0 } rest
    | ':' :: _ => none
    | [] => none
    | cs => ipv6Pieces 9 {} cs
  let count := progress.pieces.length
  match progress.gap with
  | none => if count = 8 then some progress.pieces else none
  | some gap =>
    if count ≤ 7 then
      some (progress.pieces.take gap ++ List.replicate (8 - count) 0 ++ progress.pieces.drop gap)
    else none

/-- The start and the length of the first longest run of zeros. -/
def longestZeros (pieces : List Nat) : Nat × Nat :=
  (List.range pieces.length).foldl (fun best i =>
    let length := ((pieces.drop i).takeWhile (· = 0)).length
    if best.2 < length then (i, length) else best) (0, 0)

/-- The text of an IPv6 address, with the longest run of at least two zeros left out. -/
def ipv6Text (pieces : List Nat) : List Char :=
  let text (ps : List Nat) := joinWith [':'] (ps.map (Nat.toDigits 16))
  let (start, length) := longestZeros pieces
  if length < 2 then text pieces
  else text (pieces.take start) ++ "::".toList ++ text (pieces.drop (start + length))

/-! ### Domain names -/

/-- How the bytes of a domain name are mapped to its form in ASCII; they may be no domain name. -/
abbrev DomainToAscii := List UInt8 → Option (List Char)

/-- Whether a character may not stand in a domain name. -/
def forbiddenInDomain (c : Char) : Bool :=
  c.toNat ≤ 0x20 || 0x7f ≤ c.toNat || "%#/:<>?@[\\]^|".toList.contains c

/-- The mapping without tables: names in ASCII are put in lower case, and all others refused. -/
def asciiDomains : DomainToAscii := fun bytes =>
  let name := lowercase (bytes.map fun b => Char.ofNat b.toNat)
  if name.any forbiddenInDomain then none else some name

/-! ### Hosts -/

namespace Host

/-- The text of a host. -/
def text : Host → List Char
  | .name text => text
  | .ipv4 address => ipv4Text address
  | .ipv6 pieces => '[' :: ipv6Text pieces ++ [']']

/-- Whether there is no host. -/
def isEmpty (h : Host) : Bool := h = .name []

/-- Reads a host in brackets. -/
def ofBracketed (cs : List Char) : Except Fault Host :=
  match if cs.getLast? = some ']' then ipv6? (cs.drop 1).dropLast else none with
  | some pieces => .ok (.ipv6 pieces)
  | none => .error .invalidIpv6

/-- The host of a domain name in ASCII. -/
def ofDomain (domain : List Char) : Except Fault Host :=
  if domain.isEmpty then .error .emptyHost
  else if endsInNumber domain then
    match ipv4? domain with
    | some address => .ok (.ipv4 address)
    | none => .error .invalidIpv4
  else .ok (.name domain)

/-- Reads the host of a special scheme. -/
def ofSpecial (toAscii : DomainToAscii) (cs : List Char) : Except Fault Host :=
  if cs.head? = some '[' then ofBracketed cs
  else
    match toAscii (decodeBytes cs) with
    | some domain => ofDomain domain
    | none => .error .invalidDomain

/-- Reads the host of any other scheme. -/
def ofOpaque (cs : List Char) : Except Fault Host :=
  if cs.head? = some '[' then ofBracketed cs
  else if cs.any fun c => c = '\x00' || " #/:<>?@[\\]^|".toList.contains c then
    .error .invalidDomainCharacter
  else .ok (.name (encode controlSet cs))

end Host

end Courier.Url
