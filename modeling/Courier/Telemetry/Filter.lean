/-
  Courier/Telemetry/Filter.lean
  =============================
  **Which log events are shown.**

  A filter is a list of directives with commas between them.  A directive is a
  level, which holds everywhere; a target, all of whose events are shown; or a
  target with a level behind an equals sign.  A directive with brackets is about
  spans and shows no event.  Of the directives whose target begins an event's
  target the longest decides, and of several for one target the last.  A filter
  without directives shows nothing; where malformed directives are left out and
  none remains, errors are shown (`Filter.ofText`).
-/
import Courier.Text.Integer

namespace Courier.Telemetry

open Courier.Text

/-! ### Levels -/

/-- How grave an event is. -/
inductive Level where
  | error
  | warn
  | info
  | debug
  | trace
deriving DecidableEq, Repr

namespace Level

/-- All levels, the gravest first. -/
def all : List Level := [.error, .warn, .info, .debug, .trace]

/-- The name of a level. -/
def name : Level → String
  | .error => "error"
  | .warn => "warn"
  | .info => "info"
  | .debug => "debug"
  | .trace => "trace"

/-- The place of a level, counted from one. -/
def rank : Level → Nat
  | .error => 1
  | .warn => 2
  | .info => 3
  | .debug => 4
  | .trace => 5

end Level

/-- How many of the levels are shown, counted from the gravest. -/
abbrev Threshold := Nat

/-- Reads a level: its name in any case, `off`, or the number of levels shown. -/
def threshold? (cs : List Char) : Option Threshold :=
  match readInteger (.unsigned 64) cs with
  | .ok n => if n ≤ 5 then some n.toNat else none
  | .error _ =>
    let word := String.ofList (lowercase cs)
    if word = "" then some Level.error.rank
    else if word = "off" then some 0
    else (Level.all.find? (·.name = word)).map (·.rank)

/-! ### Directives -/

/-- One directive of a filter. -/
structure Directive where
  /-- What the targets of its events begin with. -/
  target : Option (List Char)
  /-- Whether it is about spans, and so about no event. -/
  aboutSpans : Bool
  threshold : Threshold
deriving DecidableEq, Repr

/-- Why a text is no directive. -/
inductive DirectiveFault where
  | malformed
  | unknownLevel
deriving DecidableEq, Repr

/-- The wording of a fault. -/
def DirectiveFault.message : DirectiveFault → String
  | .malformed => "invalid filter directive"
  | .unknownLevel =>
    "error parsing level filter: expected one of \"off\", \"error\", \"warn\", "
      ++ "\"info\", \"debug\", \"trace\", or a number 0-5"

namespace Directive

/-- Whether a directive may begin with a character. -/
def mayBegin (c : Char) : Bool :=
  isLetter c || isDigit c || c = '-' || c = ':' || c = '_' || c = '[' || 0x80 ≤ c.toNat

/-- The level behind an equals sign; none at all shows everything. -/
def levelOf (cs : List Char) : Except DirectiveFault Threshold :=
  if cs.isEmpty then .ok Level.trace.rank
  else match threshold? cs with
    | some threshold => .ok threshold
    | none => .error .unknownLevel

/-- Whether the inside of a span's brackets is well-formed: a name, and fields in braces that are
    not empty. -/
def isSpan (cs : List Char) : Bool :=
  match cs.span (· ≠ '\x7b') with
  | (_, []) => true
  | (_, _ :: fields) =>
    fields.getLast? = some '\x7d' && (splitAt ',' fields.dropLast).all (!·.isEmpty)

/-- Reads a directive.  Positions are found in the text without the blanks around it but counted in
    the text as it is. -/
def parse (text : List Char) : Except DirectiveFault Directive :=
  let body := trim text
  if !body.head?.any mayBegin then .error .malformed
  else
    match body.findIdx? fun c => c = '=' || c = '[' with
    | none =>
      match threshold? text with
      | some threshold => .ok ⟨none, false, threshold⟩
      | none => .ok ⟨some text, false, Level.trace.rank⟩
    | some i =>
      let target := if i = 0 then none else some (text.take i)
      if body[i]? = some '=' then do
        return ⟨target, false, ← levelOf (text.drop (i + 1))⟩
      else
        match (body.drop (i + 1)).findIdx? (· = ']') with
        | none => .error .malformed
        | some j =>
          if isSpan ((body.drop (i + 1)).take j) then
            match body.drop (i + j + 2) with
            | [] => .ok ⟨target, true, Level.trace.rank⟩
            | '=' :: _ => do return ⟨target, true, ← levelOf (text.drop (i + j + 3))⟩
            | _ => .error .malformed
          else .error .malformed

/-- Whether a directive is about the events of a target. -/
def concerns (d : Directive) (target : List Char) : Bool :=
  !d.aboutSpans && d.target.all fun lead => (dropLead? lead target).isSome

/-- The length of a directive's target; a directive that holds everywhere comes last. -/
def reach (d : Directive) : Nat := d.target.elim 0 (·.length + 1)

end Directive

/-! ### Filters -/

/-- A filter, its directives in the order in which they were given. -/
structure Filter where
  directives : List Directive
deriving DecidableEq, Repr

namespace Filter

/-- The pieces of a filter's text. -/
def pieces (text : String) : List (List Char) :=
  (splitAt ',' text.toList).filter (!·.isEmpty)

/-- Reads a filter, all of whose directives must be well-formed. -/
def parse? (text : String) : Option Filter :=
  match (pieces text).mapM Directive.parse with
  | .ok directives => some ⟨directives⟩
  | .error _ => none

/-- The directive of a filter that has no other. -/
def standard : Directive := ⟨none, false, Level.error.rank⟩

/-- Reads the directives of a filter that are well-formed; without any it shows errors. -/
def ofText (text : String) : Filter :=
  let directives := (pieces text).filterMap fun piece => (Directive.parse piece).toOption
  ⟨if directives.isEmpty then [standard] else directives⟩

/-- What there is to say about the directives of a filter that are not well-formed. -/
def complaints (text : String) : List String :=
  (pieces text).filterMap fun piece =>
    match Directive.parse piece with
    | .ok _ => none
    | .error fault => some s!"ignoring \x60{String.ofList piece}\x60: {fault.message}"

/-- The directive that decides about the events of a target. -/
def deciding? (f : Filter) (target : List Char) : Option Directive :=
  (f.directives.filter (·.concerns target)).foldl (fun best d =>
    match best with
    | some other => if d.reach < other.reach then some other else some d
    | none => some d) none

/-- Whether an event of a target and a level is shown. -/
def enables (f : Filter) (target : String) (level : Level) : Bool :=
  match f.deciding? target.toList with
  | some d => level.rank ≤ d.threshold
  | none => false

end Filter

end Courier.Telemetry
