/-
  Courier/DotEnv.lean
  ===================
  **Settings in a file.**

  A settings file has one setting per line, a name and a value with an equals sign
  between them, possibly with the word `export` in front.  Values may be quoted:
  between single quotes everything stands for itself; elsewhere a backslash escapes
  the next character, and a dollar sign with a name, which may stand in braces,
  stands for the value of another setting.  A comment begins with a hash sign after
  a blank.  A quoted value may run over several lines.  Reading stops at the first
  line that is malformed; settings before it hold.  A setting that the environment
  has already is not changed.
-/
import Courier.Text.Blank

namespace Courier.DotEnv

open Courier.Text

/-- Settings by name, the latest first. -/
abbrev Settings := List (String × String)

/-- The value of a setting. -/
def lookup (name : String) (settings : Settings) : Option String :=
  (settings.find? (·.1 = name)).map (·.2)

/-! ### Logical lines -/

/-- Where in a logical line a character stands. -/
inductive Place where
  | plain
  | escaped
  | blank
  | single
  | singleEscaped
  | double
  | doubleEscaped
deriving DecidableEq, Repr

/-- The place after a character; nothing if the character begins a comment. -/
def Place.after (c : Char) : Place → Option Place
  | .blank =>
    if c = '#' then none
    else if c = '\\' then some .escaped
    else if c = '"' then some .double
    else if c = '\'' then some .single
    else some .plain
  | .plain =>
    if isBlank c && c ≠ '\n' && c ≠ '\r' then some .blank
    else if c = '\\' then some .escaped
    else if c = '"' then some .double
    else if c = '\'' then some .single
    else some .plain
  | .escaped => some .plain
  | .double =>
    if c = '\\' then some .doubleEscaped else if c = '"' then some .plain else some .double
  | .doubleEscaped => some .double
  | .single =>
    if c = '\\' then some .singleEscaped else if c = '\'' then some .plain else some .single
  | .singleEscaped => some .single

/-- Goes through a physical line: what stands in front of a comment, and the place at the end
    unless there is one. -/
def scan (place : Place) : List Char → List Char × Option Place
  | [] => ([], some place)
  | c :: rest =>
    match place.after c with
    | none => ([], none)
    | some place =>
      let (front, end_) := scan place rest
      (c :: front, end_)

/-- The physical lines of a text, each with its line end. -/
def physicalLines (cs : List Char) : List (List Char) :=
  go [] cs
where
  /-- Collects the current line in reverse. -/
  go (line : List Char) : List Char → List (List Char)
    | [] => if line.isEmpty then [] else [line.reverse]
    | c :: rest => if c = '\n' then (c :: line).reverse :: go [] rest else go (c :: line) rest

/-- A line without its line end. -/
def withoutLineEnd (cs : List Char) : List Char :=
  match cs.reverse with
  | '\n' :: '\r' :: rest => rest.reverse
  | '\n' :: rest => rest.reverse
  | _ => cs

/-- Whether a line is nothing but a comment. -/
def isComment (cs : List Char) : Bool := (trimStart cs).head? = some '#'

/-- The logical lines of physical ones; nothing stands for a line that never ends.  `open_` is
    what the line so far holds, with the place at its end. -/
def logicalLines (open_ : List Char) (place : Place) :
    List (List Char) → List (Option (List Char))
  | [] => if place = .plain then [] else [none]
  | line :: rest =>
    if isComment (open_ ++ line) then some [] :: logicalLines [] .plain rest
    else
      match scan place line with
      | (front, none) => some (open_ ++ front) :: logicalLines [] .plain rest
      | (_, some .plain) =>
        some (withoutLineEnd (open_ ++ line)) :: logicalLines [] .plain rest
      | (_, some place) => logicalLines (open_ ++ line) place rest

/-! ### Values -/

/-- What a value is read with. -/
structure Reader where
  /-- Looks up a setting that a value refers to. -/
  value : String → String

namespace Reader

/-- The value of the setting of a name that was collected in reverse. -/
def refer (r : Reader) (name : List Char) : List Char :=
  (r.value (String.ofList name.reverse)).toList

/-- What stands behind a backslash, if anything may. -/
def escape? (c : Char) : Option Char :=
  if c = 'n' then some '\n'
  else if c = '\\' || c = '\'' || c = '"' || c = '$' || c = ' ' then some c
  else none

/-- Whether a character may stand in a name that is referred to. -/
def inName (c : Char) : Bool := isLetter c || isDigit c || 0x80 ≤ c.toNat

/-- How a value is being read. -/
inductive Mode where
  | plain
  | single
  | double
  /-- Behind a backslash, inside double quotes or not. -/
  | escaped (quoted : Bool)
  /-- In a name referred to, collected in reverse, inside double quotes or not. -/
  | name (quoted : Bool) (name : List Char)
  /-- In a name referred to that stands in braces. -/
  | braced (quoted : Bool) (name : List Char)
  /-- Behind the value. -/
  | finished

/-- Where reading goes on after a reference. -/
def Mode.resume (quoted : Bool) : Mode := if quoted then .double else .plain

/-- Reads a value; nothing if it is malformed. -/
def read? (r : Reader) : Mode → List Char → Option (List Char)
  | .plain, [] => some []
  | .finished, [] => some []
  | .escaped quoted, [] => if quoted then none else some []
  | .name quoted name, [] => if quoted then none else some (r.refer name)
  | .single, [] => none
  | .double, [] => none
  | .braced _ _, [] => none
  | .finished, c :: rest =>
    if c = ' ' || c = '\t' then r.read? .finished rest
    else if c = '#' then some []
    else none
  | .escaped quoted, c :: rest => do
    return (← escape? c) :: (← r.read? (.resume quoted) rest)
  | .single, c :: rest =>
    if c = '\'' then r.read? .plain rest else (r.read? .single rest).map (c :: ·)
  | .name quoted name, c :: rest =>
    if inName c then r.read? (.name quoted (c :: name)) rest
    else if c = '\x7b' && name.isEmpty then r.read? (.braced quoted []) rest
    else if c = '$' then (r.read? (.name quoted []) rest).map (r.refer name ++ ·)
    else (r.read? (.resume quoted) rest).map (r.refer name ++ c :: ·)
  | .braced quoted name, c :: rest =>
    if c = '\x7d' then (r.read? (.resume quoted) rest).map (r.refer name ++ ·)
    else r.read? (.braced quoted (c :: name)) rest
  | .double, c :: rest =>
    if c = '$' then r.read? (.name true []) rest
    else if c = '"' then r.read? .plain rest
    else if c = '\\' then r.read? (.escaped true) rest
    else (r.read? .double rest).map (c :: ·)
  | .plain, c :: rest =>
    if c = '$' then r.read? (.name false []) rest
    else if c = '\'' then r.read? .single rest
    else if c = '"' then r.read? .double rest
    else if c = '\\' then r.read? (.escaped false) rest
    else if c = ' ' || c = '\t' then r.read? .finished rest
    else (r.read? .plain rest).map (c :: ·)

end Reader

/-! ### Lines -/

/-- Whether a name may begin with a character. -/
def beginsName (c : Char) : Bool := isLetter c || c = '_'

/-- Whether a character may stand in a name. -/
def inName (c : Char) : Bool := isLetter c || isDigit c || c = '_' || c = '.'

/-- Reads a name; answers also with what follows it, without the blanks in front. -/
def name? (cs : List Char) : Option (List Char × List Char) :=
  if cs.head?.any beginsName then
    let (name, rest) := cs.span inName
    some (name, trimStart rest)
  else none

/-- Reads the part of a line in front of the value: the name, and what follows the equals sign. -/
def front? (cs : List Char) : Option (List Char × List Char) := do
  let (first, rest) ← name? cs
  match rest with
  | '=' :: rest => return (first, rest)
  | rest =>
    if first = "export".toList then
      let (name, rest) ← name? (trimStart rest)
      match rest with
      | '=' :: rest => return (name, rest)
      | _ => none
    else none

/-- Reads a line: its setting, if it has one.  Nothing if the line is malformed. -/
def line? (r : Reader) (line : List Char) : Option (Option (String × String)) := do
  let cs := trim line
  if cs.isEmpty || cs.head? = some '#' then return none
  let (name, rest) ← front? cs
  let rest := trimStart rest
  let value ← if rest.isEmpty || rest.head? = some '#' then some [] else r.read? .plain rest
  return some (String.ofList name, String.ofList value)

/-! ### Files -/

/-- Loads logical lines up to the first that is malformed.  `own` are the settings of the file so
    far. -/
def loadLines (settings own : Settings) : List (Option (List Char)) → Settings
  | [] => settings
  | none :: _ => settings
  | some line :: rest =>
    let value (name : String) : String :=
      ((lookup name settings).or (lookup name own)).getD ""
    match line? ⟨value⟩ line with
    | none => settings
    | some none => loadLines settings own rest
    | some (some setting) =>
      loadLines (if (lookup setting.1 settings).isSome then settings else setting :: settings)
        (setting :: own) rest

/-- Adds the settings of a file to those of the environment. -/
def load (text : String) (environment : Settings) : Settings :=
  let cs := match text.toList with
    | '\ufeff' :: rest => rest
    | cs => cs
  loadLines environment [] (logicalLines [] .plain (physicalLines cs))

end Courier.DotEnv
