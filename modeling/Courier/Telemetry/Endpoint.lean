/-
  Courier/Telemetry/Endpoint.lean
  ===============================
  **Addresses that telemetry may be sent to.**

  An endpoint is an address of the generic form: a scheme and an authority with an
  optional path and query, an authority alone, or a path alone.  Nothing is decoded
  and ports are not looked at; only characters that have no place in an address,
  and authorities with more than one colon, with unpaired brackets or with a
  percent sign in the host, are faults.
-/
import Courier.Text.Blank

namespace Courier.Telemetry

open Courier.Text

/-- Why a text is no endpoint. -/
inductive EndpointFault where
  | character
  | authority
  | format
  | schemeTooLong
  | tooLong
deriving DecidableEq, Repr

/-- The wording of a fault. -/
def EndpointFault.message : EndpointFault → String
  | .character => "invalid uri character"
  | .authority => "invalid authority"
  | .format => "invalid format"
  | .schemeTooLong => "scheme too long"
  | .tooLong => "uri too long"

namespace Endpoint

/-- The length in bytes that an endpoint must not exceed. -/
def greatestLength : Nat := 65534

/-- The length in bytes that a scheme must not exceed. -/
def greatestSchemeLength : Nat := 64

/-- Whether a character may stand in an authority. -/
def inAuthority (c : Char) : Bool :=
  isLetter c || isDigit c || "!$&'()*+,-.:;=@[]_~".toList.contains c

/-- Whether a character may stand in a scheme. -/
def inScheme (c : Char) : Bool :=
  isLetter c || isDigit c || c = '+' || c = '-' || c = '.'

/-- Whether a character ends an authority. -/
def endsAuthority (c : Char) : Bool := c = '/' || c = '?' || c = '#'

/-- What has been seen of an authority. -/
structure Seen where
  colons : Nat := 0
  opened : Bool := false
  closed : Bool := false
  percent : Bool := false
  /-- Whether the last character was an at sign. -/
  atSign : Bool := false

/-- Reads an authority; answers with what follows it. -/
def authority (seen : Seen) : List Char → Except EndpointFault (List Char)
  | [] => finish seen []
  | c :: rest =>
    if endsAuthority c then finish seen (c :: rest)
    else if c = '%' then authority { seen with percent := true, atSign := false } rest
    else if !inAuthority c then .error .character
    else if c = ':' then
      if seen.colons < 8 then
        authority { seen with colons := seen.colons + 1, atSign := false } rest
      else finish seen []
    else if c = '[' then
      if seen.percent || seen.opened then .error .authority
      else authority { seen with opened := true, atSign := false } rest
    else if c = ']' then
      if !seen.opened || seen.closed then .error .authority
      else authority { seen with closed := true, colons := 0, percent := false, atSign := false }
        rest
    else if c = '@' then authority { seen with colons := 0, percent := false, atSign := true } rest
    else authority { seen with atSign := false } rest
where
  /-- Judges an authority that has been seen whole. -/
  finish (seen : Seen) (rest : List Char) : Except EndpointFault (List Char) :=
    if seen.opened != seen.closed || 1 < seen.colons || seen.atSign || seen.percent then
      .error .authority
    else .ok rest

/-- Whether a character may stand in a path. -/
def inPath (c : Char) : Bool := 0x20 < c.toNat && c ≠ '<' && c ≠ '>' && c ≠ '\x60'

/-- Whether a character may stand in a query. -/
def inQuery (c : Char) : Bool := 0x20 < c.toNat && c ≠ '"' && c ≠ '<' && c ≠ '>'

/-- Judges a path with what follows it; a fragment is not looked at. -/
def path (cs : List Char) : Except EndpointFault Unit :=
  let (front, rest) := cs.span fun c => c ≠ '?' && c ≠ '#'
  if !front.all inPath then .error .character
  else match rest with
    | '?' :: query => if (query.takeWhile (· ≠ '#')).all inQuery then .ok () else .error .character
    | _ => .ok ()

/-- The text after a scheme and `://`; nothing if the text has no scheme. -/
def afterScheme? (cs : List Char) : Except EndpointFault (Option (List Char)) :=
  let (scheme, rest) := cs.span inScheme
  match dropLead? "://".toList rest with
  | none => .ok none
  | some after =>
    if greatestSchemeLength < scheme.length then .error .schemeTooLong else .ok (some after)

/-- Judges an endpoint. -/
def check (text : String) : Except EndpointFault Unit :=
  let cs := text.toList
  if greatestLength < text.utf8ByteSize then .error .tooLong
  else if cs = ['*'] then .ok ()
  else if cs.head? = some '/' then path cs
  else do
    match ← afterScheme? cs with
    | none =>
      let rest ← authority {} cs
      if rest.isEmpty then .ok ()
      else if text.utf8ByteSize = 1 then .error .character
      else .error .format
    | some after =>
      let rest ← authority {} after
      if rest.length = after.length then .error .format else path rest

end Endpoint

end Courier.Telemetry
