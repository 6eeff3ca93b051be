/-
  Courier/Cron/Grammar.lean
  =========================
  **The grammar of schedules.**

  A schedule is a keyword such as `@daily` or six or seven fields: seconds,
  minutes, hours, days of the month, months, days of the week and, if given,
  years.  Of five words the field of the seconds is missing and is zero.

  A field is a list of items separated by commas.  An item is a name, or a `*`, a
  number, a range of numbers or a range of names, each of these with a step behind
  a slash if wanted; in the two fields of days `?` means `*`.  Blanks may stand
  around a field and around a number or a name, and nothing need stand between two
  fields where it is clear that they are two.
-/
import Courier.Cron.Schedule
import Courier.Text.Blank

namespace Courier.Cron

open Courier.Text

/-! ### Items -/

/-- What an item of a field covers before its step is taken. -/
inductive Extent where
  | all
  | point (n : Nat)
  | range (first last : Nat)
  | namedRange (first last : List Char)
deriving DecidableEq, Repr

/-- An item of a field. -/
inductive Item where
  | extent (extent : Extent)
  | stepped (extent : Extent) (step : Nat)
  | named (name : List Char)
deriving DecidableEq, Repr

/-! ### Reading items -/

/-- Whether a character separates fields. -/
def isSpace (c : Char) : Bool := c = ' ' || c = '\t' || c = '\r' || c = '\n'

/-- A text without the separators in front. -/
def skipSpace (cs : List Char) : List Char := cs.dropWhile isSpace

/-- Reads a run of characters of a class with any blanks around it. -/
def run? (isMember : Char → Bool) (cs : List Char) : Option (List Char × List Char) :=
  let cs := skipSpace cs
  let run := cs.takeWhile isMember
  if run.isEmpty then none else some (run, skipSpace (cs.drop run.length))

/-- Reads a number of 32 bits with any blanks around it. -/
def number? (cs : List Char) : Option (Nat × List Char) := do
  let (digits, rest) ← run? isDigit cs
  let n := digits.foldl (fun n c => n * 10 + digitValue c) 0
  if n < Nat.pow 2 32 then some (n, rest) else none

/-- Reads one given character. -/
def mark? (mark : Char) : List Char → Option (List Char)
  | c :: rest => if c = mark then some rest else none
  | [] => none

/-- Reads two things with a mark between them. -/
def pair? {α : Type} (read : List Char → Option (α × List Char)) (mark : Char)
    (cs : List Char) : Option (α × α × List Char) := do
  let (first, rest) ← read cs
  let (second, rest) ← read (← mark? mark rest)
  return (first, second, rest)

/-- Reads an extent; `any` says whether `?` is allowed. -/
def extent? (any : Bool) (cs : List Char) : Option (Extent × List Char) :=
  match cs with
  | '?' :: rest => if any then some (.all, rest) else none
  | '*' :: rest => some (.all, rest)
  | _ =>
    match pair? number? '-' cs with
    | some (first, last, rest) => some (.range first last, rest)
    | none =>
      match number? cs with
      | some (n, rest) => some (.point n, rest)
      | none => (pair? (run? isLetter) '-' cs).map fun (first, last, rest) =>
          (.namedRange first last, rest)

/-- Reads an item. -/
def item? (any : Bool) (cs : List Char) : Option (Item × List Char) :=
  match extent? any cs with
  | some (extent, rest) =>
    match (mark? '/' rest).bind number? with
    | some (step, rest) => some (.stepped extent step, rest)
    | none => some (.extent extent, rest)
  | none => (run? isLetter cs).map fun (name, rest) => (.named name, rest)

/-- Reads the items that follow the first one, each behind a comma; the first argument bounds
    their number. -/
def moreItems (any : Bool) : Nat → List Char → List Item × List Char
  | 0, cs => ([], cs)
  | n + 1, cs =>
    match (mark? ',' cs).bind (item? any) with
    | some (item, rest) =>
      let (items, rest) := moreItems any n rest
      (item :: items, rest)
    | none => ([], cs)

/-- Reads a field with any blanks around it. -/
def field? (any : Bool) (cs : List Char) : Option (List Item × List Char) := do
  let (item, rest) ← item? any (skipSpace cs)
  let (items, rest) := moreItems any rest.length rest
  return (item :: items, skipSpace rest)

/-! ### The values of a field -/

/-- What a field may hold: its bounds and the names of its values. -/
structure FieldKind where
  least : Nat
  greatest : Nat
  names : List (String × Nat) := []
  /-- Whether `?` is allowed. -/
  any : Bool := false
deriving DecidableEq, Repr

namespace FieldKind

def seconds : FieldKind := { least := 0, greatest := 59 }
def minutes : FieldKind := { least := 0, greatest := 59 }
def hours : FieldKind := { least := 0, greatest := 23 }
def days : FieldKind := { least := 1, greatest := 31, any := true }
def years : FieldKind := { least := 1970, greatest := 2100 }

def months : FieldKind where
  least := 1
  greatest := 12
  names :=
    [("jan", 1), ("january", 1), ("feb", 2), ("february", 2), ("mar", 3), ("march", 3),
     ("apr", 4), ("april", 4), ("may", 5), ("jun", 6), ("june", 6), ("jul", 7), ("july", 7),
     ("aug", 8), ("august", 8), ("sep", 9), ("september", 9), ("oct", 10), ("october", 10),
     ("nov", 11), ("november", 11), ("dec", 12), ("december", 12)]

def weekdays : FieldKind where
  least := 1
  greatest := 7
  any := true
  names :=
    [("sun", 1), ("sunday", 1), ("mon", 2), ("monday", 2), ("tue", 3), ("tues", 3),
     ("tuesday", 3), ("wed", 4), ("wednesday", 4), ("thu", 5), ("thurs", 5), ("thursday", 5),
     ("fri", 6), ("friday", 6), ("sat", 7), ("saturday", 7)]

/-- The numbers from the first to the last one. -/
def span (first last : Nat) : List Nat := List.range' first (last + 1 - first)

/-- Every value of the field. -/
def all (k : FieldKind) : List Nat := span k.least k.greatest

/-- Whether a number is a value of the field. -/
def holds (k : FieldKind) (n : Nat) : Bool := k.least ≤ n && n ≤ k.greatest

/-- The value of a name, in whatever case it is written. -/
def value? (k : FieldKind) (name : List Char) : Option Nat :=
  (k.names.find? fun (other, _) => other.toList = lowercase name).map (·.2)

/-- The values from the first to the last one, which must be in order. -/
def range? (k : FieldKind) (first last : Nat) : Option (List Nat) :=
  if k.holds first && k.holds last && first ≤ last then some (span first last) else none

/-- The values of an extent. -/
def extentValues? (k : FieldKind) : Extent → Option (List Nat)
  | .all => some k.all
  | .point n => if k.holds n then some [n] else none
  | .range first last => k.range? first last
  | .namedRange first last => do k.range? (← k.value? first) (← k.value? last)

/-- Every value of a list that is a number of steps from its first. -/
def everyNth (step : Nat) (values : List Nat) : List Nat :=
  values.zipIdx.filterMap fun (value, i) => if i % step = 0 then some value else none

/-- The values of an item.  A number with a step means everything from the number on. -/
def itemValues? (k : FieldKind) : Item → Option (List Nat)
  | .extent extent => k.extentValues? extent
  | .stepped extent step => do
    guard (1 ≤ step ∧ step ≤ k.greatest)
    let values ← match extent with
      | .point n => k.range? n k.greatest
      | extent => k.extentValues? extent
    return everyNth step values
  | .named name => (k.value? name).map ([·])

/-- The values of a field, in ascending order. -/
def values? (k : FieldKind) (items : List Item) : Option (List Nat) := do
  let values ← items.mapM k.itemValues?
  return k.all.filter fun n => values.any (·.contains n)

/-- Reads a field of this kind. -/
def read? (k : FieldKind) (cs : List Char) : Option (List Nat × List Char) := do
  let (items, rest) ← field? k.any cs
  return (← k.values? items, rest)

end FieldKind

/-! ### Whole schedules -/

namespace Schedule

/-- The schedules that have a keyword. -/
def ofKeyword? (keyword : List Char) : Option Schedule :=
  let daily : Schedule :=
    { seconds := [0], minutes := [0], hours := [0], days := FieldKind.days.all,
      months := FieldKind.months.all, weekdays := FieldKind.weekdays.all,
      years := FieldKind.years.all }
  if keyword = "@yearly".toList then some { daily with days := [1], months := [1] }
  else if keyword = "@monthly".toList then some { daily with days := [1] }
  else if keyword = "@weekly".toList then some { daily with weekdays := [1] }
  else if keyword = "@daily".toList then some daily
  else if keyword = "@hourly".toList then some { daily with hours := FieldKind.hours.all }
  else none

/-- Reads six or seven fields. -/
def ofFields? (cs : List Char) : Option Schedule := do
  let (seconds, cs) ← FieldKind.seconds.read? cs
  let (minutes, cs) ← FieldKind.minutes.read? cs
  let (hours, cs) ← FieldKind.hours.read? cs
  let (days, cs) ← FieldKind.days.read? cs
  let (months, cs) ← FieldKind.months.read? cs
  let (weekdays, cs) ← FieldKind.weekdays.read? cs
  let (years, cs) := (FieldKind.years.read? cs).getD (FieldKind.years.all, cs)
  guard cs.isEmpty
  return { seconds, minutes, hours, days, months, weekdays, years }

/-- Reads a schedule. -/
def parse? (text : String) : Option Schedule :=
  let cs := text.toList
  let cs := if (words cs).length = 5 then '0' :: ' ' :: cs else cs
  let keyword := ((skipSpace cs).reverse.dropWhile isSpace).reverse
  (ofKeyword? keyword).or (ofFields? cs)

end Schedule

end Courier.Cron
