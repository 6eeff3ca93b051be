/-
  Courier/Console/Grammar.lean
  ============================
  **The grammar of command lines.**

  A command has arguments, all of which must be given, and options: flags, which
  stand alone, and settings, which take the next word or what follows an equals
  sign.  No option is given twice.  After a lone `--` every word is an argument.
  The first word that does not fit decides, so a call for help counts only if
  everything before it fits.
-/
import Courier.Text.Blank

namespace Courier.Console

open Courier.Text

/-- An argument or an option, with what is said about it. -/
structure Entry where
  name : String
  about : String := ""
  /-- Whether it is an option that stands alone. -/
  isFlag : Bool := false
deriving DecidableEq, Repr

/-- What may follow the name of a command. -/
structure Form where
  name : String
  about : String
  arguments : List Entry := []
  options : List Entry := []
deriving DecidableEq, Repr

/-- Whether a form has a flag of a name. -/
def Form.hasFlag (form : Form) (name : String) : Bool :=
  form.options.any fun entry => entry.name = name && entry.isFlag

/-- Whether a form has a setting of a name. -/
def Form.hasSetting (form : Form) (name : String) : Bool :=
  form.options.any fun entry => entry.name = name && !entry.isFlag

/-- What was given to a command. -/
structure Given where
  /-- In order. -/
  arguments : List String := []
  flags : List String := []
  settings : List (String × String) := []
deriving DecidableEq, Repr

namespace Given

/-- The value of a setting. -/
def setting? (g : Given) (name : String) : Option String :=
  (g.settings.find? (·.1 = name)).map (·.2)

/-- Whether a flag was given. -/
def hasFlag (g : Given) (name : String) : Bool := g.flags.contains name

/-- What was given with one more argument, unless that is too many. -/
def addArgument (form : Form) (word : String) (g : Given) : Option Given :=
  if g.arguments.length < form.arguments.length then
    some { g with arguments := g.arguments ++ [word] }
  else none

/-- What was given with one more flag, unless there is no such flag or it was given. -/
def addFlag (form : Form) (name : String) (g : Given) : Option Given :=
  if form.hasFlag name && !g.hasFlag name then
    some { g with flags := name :: g.flags }
  else none

/-- What was given with one more setting, unless there is no such setting or it was given. -/
def addSetting (form : Form) (name value : String) (g : Given) : Option Given :=
  if form.hasSetting name && (g.setting? name).isNone then
    some { g with settings := (name, value) :: g.settings }
  else none

end Given

/-- How words are read: as what was given to a command, or as a call for help. -/
inductive Reading where
  | given (given : Given)
  | help
deriving DecidableEq, Repr

/-- How a word begins. -/
inductive Word where
  /-- Two dashes and nothing else. -/
  | separator
  /-- An option, with what follows an equals sign in it. -/
  | option (name : String) (value : Option String)
  /-- A dash and letters. -/
  | letters (letters : List Char)
  | plain
deriving DecidableEq, Repr

/-- How a word begins. -/
def wordOf (word : String) : Word :=
  match word.toList with
  | ['-', '-'] => .separator
  | '-' :: '-' :: rest =>
    let (name, value) := rest.span (· ≠ '=')
    .option (String.ofList name)
      (match value with
        | [] => none
        | _ :: value => some (String.ofList value))
  | '-' :: c :: rest => .letters (c :: rest)
  | _ => .plain

namespace Form

/-- Reads the words after a separator. -/
def readArguments (form : Form) (g : Given) : List String → Option Given
  | [] => some g
  | word :: rest => (g.addArgument form word).bind (form.readArguments · rest)

/-- Reads the words after the name of a command. -/
def read (form : Form) (g : Given) : List String → Option Reading
  | [] => some (.given g)
  | word :: rest =>
    match wordOf word with
    | .separator => (form.readArguments g rest).map .given
    | .letters letters => if letters.head? = some 'h' then some .help else none
    | .option name none =>
      if name = "help" then some .help
      else if form.hasSetting name then
        match rest with
        | [] => none
        | value :: rest =>
          if wordOf value = .plain then
            (g.addSetting form name value).bind (form.read · rest)
          else none
      else (g.addFlag form name).bind (form.read · rest)
    | .option name (some value) => (g.addSetting form name value).bind (form.read · rest)
    | .plain => (g.addArgument form word).bind (form.read · rest)

/-- Reads the words after the name of a command; all arguments must be there. -/
def parse (form : Form) (words : List String) : Option Reading :=
  (form.read {} words).filter fun reading =>
    match reading with
    | .given g => g.arguments.length = form.arguments.length
    | .help => true

end Form

/-! ### Help -/

/-- The name of a value that is to be filled in. -/
def placeholderText (name : String) : String :=
  let shout (c : Char) : Char :=
    if c = '-' then '_' else if 'a' ≤ c && c ≤ 'z' then Char.ofNat (c.toNat - 32) else c
  s!"<{String.ofList (name.toList.map shout)}>"

/-- The width of the page that help is written for. -/
def pageWidth : Nat := 100

/-- A table with two columns.  If the second column would not fit, it is put below the first. -/
def table (rows : List (String × String)) : String :=
  let width := rows.foldl (fun w row => max w row.1.length) 0
  let tight := 40 < width + 12 && rows.any fun row => pageWidth < width + 12 + row.2.length
  String.join (rows.map fun (left, right) =>
    if tight then s!"  {left}\n          {right}\n"
    else
      let blanks := String.ofList (List.replicate (width - left.length + 2) ' ')
      s!"  {left}{blanks}{right}\n")

namespace Form

/-- What follows the name of a command, in short. -/
def usage (form : Form) : String :=
  (if form.options.isEmpty then "" else " [OPTIONS]")
    ++ String.join (form.arguments.map fun entry => " " ++ placeholderText entry.name)

/-- The page of help about a command. -/
def help (form : Form) : String :=
  let arguments := form.arguments.map fun entry => (placeholderText entry.name, entry.about)
  let options := form.options.map fun entry =>
    let value := if entry.isFlag then "" else " " ++ placeholderText entry.name
    (s!"    --{entry.name}{value}", entry.about)
  let rows := table (options ++ [("-h, --help", "Print help")])
  s!"{form.about}\n\nUsage: hookq {form.name}{form.usage}\n\n"
    ++ (if arguments.isEmpty then "" else s!"Arguments:\n{table arguments}\n")
    ++ s!"Options:\n{rows}"

end Form

end Courier.Console
