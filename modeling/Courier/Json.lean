/-
  Courier/Json.lean
  =================
  **JSON values and the reading of records from them.**

  A number is kept as an integer when it is one; the value of any other number is
  never looked at.  A record is read either from an object, where members that
  are not asked for are ignored and an absent member counts as `null`, or from an
  array of exactly its members in order.
-/
import Courier.Text.Integer
import Courier.Time.Rfc3339

namespace Courier

open Courier.Text Courier.Time

/-- A JSON value. -/
inductive Json where
  | null
  | bool (b : Bool)
  | int (n : Int)
  /-- A number that is not written as an integer. -/
  | fraction
  | str (s : String)
  | arr (items : List Json)
  | obj (members : List (String × Json))
deriving Repr, Inhabited

namespace Json

/-! ### Looking into a value -/

/-- A member of an object; `null` when there is none. -/
def member (name : String) (members : List (String × Json)) : Json :=
  ((members.find? (·.1 = name)).map (·.2)).getD .null

/-- The members of a record, in the order of the names given. -/
def members? (names : List String) : Json → Option (List Json)
  | .obj members => some (names.map (member · members))
  | .arr items => if items.length = names.length then some items else none
  | _ => none

/-- The text of a string. -/
def str? : Json → Option String
  | .str s => some s
  | _ => none

/-- The value of a boolean. -/
def bool? : Json → Option Bool
  | .bool b => some b
  | _ => none

/-- The value of an integer. -/
def int? : Json → Option Int
  | .int n => some n
  | _ => none

/-- An integer of a range. -/
def intIn? (range : IntegerRange) : Json → Option Int
  | .int n => if range.Contains n then some n else none
  | _ => none

/-- The items of an array. -/
def arr? : Json → Option (List Json)
  | .arr items => some items
  | _ => none

/-- An instant, written as text. -/
def instant? : Json → Option Instant
  | .str s => Instant.ofText? s
  | _ => none

/-- A value that may be absent: `null` reads as nothing. -/
def option? {α : Type} (read : Json → Option α) : Json → Option (Option α)
  | .null => some none
  | j => (read j).map some

/-! ### Making values -/

/-- An optional value, `null` when absent. -/
def ofOption {α : Type} (write : α → Json) : Option α → Json
  | none => .null
  | some a => write a

/-- An instant as text. -/
def ofInstant (t : Instant) : Json := .str t.toText

/-- A list as an array. -/
def ofList {α : Type} (write : α → Json) (as : List α) : Json := .arr (as.map write)

/-! ### Printing -/

/-- A character inside a string: quotes, backslashes and control characters are escaped. -/
def escaped (c : Char) : List Char :=
  if c = '"' then ['\\', '"']
  else if c = '\\' then ['\\', '\\']
  else if c = '\n' then ['\\', 'n']
  else if c = '\r' then ['\\', 'r']
  else if c = '\t' then ['\\', 't']
  else if c = '\x08' then ['\\', 'b']
  else if c = '\x0c' then ['\\', 'f']
  else if c.toNat < 32 then
    '\\' :: 'u' :: '0' :: '0' :: (Nat.toDigits 16 (c.toNat / 16) ++ Nat.toDigits 16 (c.toNat % 16))
  else [c]

/-- A string between its quotes. -/
def quoted (s : String) : String := String.ofList ('"' :: s.toList.flatMap escaped ++ ['"'])

mutual

/-- A value over several lines, each level indented by two more blanks. -/
def pretty (indent : String) : Json → String
  | .null => "null"
  | .bool true => "true"
  | .bool false => "false"
  | .int n => toString n
  | .fraction => "0"
  | .str s => quoted s
  | .arr [] => "[]"
  | .arr (item :: items) =>
    let inner := indent ++ "  "
    "[\n" ++ inner ++ pretty inner item ++ prettyItems inner items ++ "\n" ++ indent ++ "]"
  | .obj [] => "\x7b\x7d"
  | .obj ((name, value) :: members) =>
    let inner := indent ++ "  "
    "\x7b\n" ++ inner ++ quoted name ++ ": " ++ pretty inner value
      ++ prettyMembers inner members ++ "\n" ++ indent ++ "\x7d"

/-- The items of an array after the first. -/
def prettyItems (inner : String) : List Json → String
  | [] => ""
  | item :: items => ",\n" ++ inner ++ pretty inner item ++ prettyItems inner items

/-- The members of an object after the first. -/
def prettyMembers (inner : String) : List (String × Json) → String
  | [] => ""
  | (name, value) :: members =>
    ",\n" ++ inner ++ quoted name ++ ": " ++ pretty inner value ++ prettyMembers inner members

end

end Json

end Courier
