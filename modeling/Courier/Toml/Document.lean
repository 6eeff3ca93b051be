/-
  Courier/Toml/Document.lean
  ==========================
  **Reading TOML documents.**

  A document is read line by line: blank lines and comments, keys with values, and
  headers that begin the section of a table or of one more table of an array.
  Arrays and inline tables are read with a bound on their nesting, which keeps the
  reader total and is the limit the format's users know.
-/
import Courier.Toml.Scalar

namespace Courier.Toml

open Courier.Text

/-! ### Lines -/

/-- Skips a comment, if there is one. -/
def comment (cs : List Char) : List Char :=
  match cs with
  | '#' :: rest => rest.dropWhile isTextChar
  | cs => cs

/-- Reads the end of a line behind blanks and a comment. -/
def lineEnd? (cs : List Char) : Option (List Char) :=
  match comment (skipBlanks cs) with
  | [] => some []
  | cs => newline? cs

/-- Skips blanks, comments and line breaks; the first argument bounds the number of lines. -/
def skipLines : Nat → List Char → List Char
  | 0, cs => cs
  | n + 1, cs =>
    let cs := skipBlanks cs
    match newline? (comment cs) with
    | some rest => skipLines n rest
    | none => cs

/-! ### Keys -/

/-- Whether a character may stand in a key without quotes. -/
def isKeyChar (c : Char) : Bool := isLetter c || isDigit c || c = '_' || c = '-'

/-- Reads one key. -/
def simpleKey? (cs : List Char) : Option (String × List Char) :=
  match cs with
  | '"' :: rest => (basic? (rest.length + 1) rest).map fun (k, rest) => (String.ofList k, rest)
  | '\'' :: rest => (literal? rest).map fun (k, rest) => (String.ofList k, rest)
  | _ =>
    let key := cs.takeWhile isKeyChar
    if key.isEmpty then none else some (String.ofList key, cs.drop key.length)

/-- The greatest depth of keys, arrays and inline tables. -/
def greatestDepth : Nat := 79

/-- Reads keys with dots between them; the argument bounds their number. -/
def keys? : Nat → List Char → Option (List String × List Char)
  | 0, _ => none
  | n + 1, cs => do
    let (key, rest) ← simpleKey? cs
    match skipBlanks rest with
    | '.' :: more =>
      let (keys, rest) ← keys? n (skipBlanks more)
      return (key :: keys, rest)
    | _ => return ([key], rest)

/-- Reads a dotted key with blanks around it. -/
def path? (cs : List Char) : Option (List String × List Char) := do
  let (keys, rest) ← keys? greatestDepth (skipBlanks cs)
  return (keys, skipBlanks rest)

/-! ### Values -/

/-- A reader of values. -/
abbrev Reader := List Char → Option (Toml × List Char)

/-- Reads the items of an array up to its bracket; the number bounds how many there are. -/
def arrayItems? (value : Reader) : Nat → List Char → Option (List Toml × List Char)
  | 0, _ => none
  | n + 1, cs => do
    let cs := skipLines cs.length cs
    match cs with
    | ']' :: rest => return ([], rest)
    | cs =>
      let (item, rest) ← value cs
      match skipLines rest.length rest with
      | ']' :: rest => return ([item], rest)
      | ',' :: rest =>
        let (items, rest) ← arrayItems? value n rest
        return (item :: items, rest)
      | _ => none

/-- Reads the entries of an inline table up to its brace; the number bounds how many there are. -/
def inlineEntries? (value : Reader) : Nat → Entries → List Char → Option (Entries × List Char)
  | 0, _, _ => none
  | n + 1, entries, cs => do
    let (path, rest) ← path? cs
    let rest ← mark? '=' rest
    let (item, rest) ← value (skipBlanks rest)
    let entries ← insertAt item path entries
    match skipBlanks rest with
    | '\x7d' :: rest => return (entries, rest)
    | ',' :: rest => inlineEntries? value n entries rest
    | _ => none

/-- Reads a value without parts. -/
def scalar? (cs : List Char) : Option (Toml × List Char) :=
  match cs with
  | '"' :: _ | '\'' :: _ => (string? cs).map fun (s, rest) => (.str (String.ofList s), rest)
  | 't' :: 'r' :: 'u' :: 'e' :: rest => some (.bool true, rest)
  | 'f' :: 'a' :: 'l' :: 's' :: 'e' :: rest => some (.bool false, rest)
  | _ => ((datetime? cs).or (float? cs)).or (integer? cs)

/-- Reads a value; the number bounds the nesting of arrays and inline tables. -/
def value? : Nat → Reader
  | depth, '[' :: rest =>
    match depth with
    | 0 => none
    | depth + 1 =>
      (arrayItems? (value? depth) (rest.length + 1) rest).map fun (items, rest) =>
        (.array items, rest)
  | depth, '\x7b' :: rest =>
    match depth with
    | 0 => none
    | depth + 1 =>
      match skipBlanks rest with
      | '\x7d' :: rest => some (.table .inline [], rest)
      | rest =>
        (inlineEntries? (value? depth) (rest.length + 1) [] rest).map fun (entries, rest) =>
          (.table .inline entries, rest)
  | _, cs => scalar? cs

/-! ### Documents -/

/-- A document on the way: what it holds, and the path of the section that is open. -/
structure Progress where
  root : Entries := []
  section_ : List String := []

/-- Reads the header of a section. -/
def header? (progress : Progress) (cs : List Char) : Option (Progress × List Char) :=
  match cs with
  | '[' :: rest => do
    let (path, rest) ← path? rest
    let rest ← mark? ']' (← mark? ']' rest)
    let root ← openElement path.dropLast (← path.getLast?) progress.root
    return ({ root, section_ := path }, ← lineEnd? rest)
  | cs => do
    let (path, rest) ← path? cs
    let rest ← mark? ']' rest
    let root ← openTable path.dropLast (← path.getLast?) progress.root
    return ({ root, section_ := path }, ← lineEnd? rest)

/-- Reads a key with its value. -/
def keyValue? (progress : Progress) (cs : List Char) : Option (Progress × List Char) := do
  let (path, rest) ← path? cs
  let rest ← mark? '=' rest
  let (value, rest) ← value? greatestDepth (skipBlanks rest)
  let root ← modifyAt (insertAt value path) progress.section_ progress.root
  return ({ progress with root }, ← lineEnd? rest)

/-- Reads the lines of a document; the number bounds how many there are. -/
def lines : Nat → Progress → List Char → Option Entries
  | 0, _, _ => none
  | n + 1, progress, cs =>
    match skipBlanks cs with
    | [] => some progress.root
    | '[' :: rest => (header? progress rest).bind fun (progress, rest) => lines n progress rest
    | cs =>
      match lineEnd? cs with
      | some rest => lines n progress rest
      | none => (keyValue? progress cs).bind fun (progress, rest) => lines n progress rest

/-- Reads a document; a byte order mark in front does not count. -/
def parse? (text : String) : Option Entries :=
  let cs := match text.toList with
    | '\ufeff' :: rest => rest
    | cs => cs
  lines (cs.length + 1) {} cs

end Courier.Toml
