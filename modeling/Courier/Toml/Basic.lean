/-
  Courier/Toml/Basic.lean
  =======================
  **TOML documents and how tables grow.**

  A document is a table that grows key by key.  A table remembers how it came to
  be, because that decides what may still be added to it: a table made by a header
  or written inline is complete once its section ends, while a table that only
  came up on the way to another one may still get a header of its own or further
  dotted keys.  `insertAt` adds a value under a dotted key, `openTable` and
  `openElement` begin a section; each fails on a redefinition.
-/

namespace Courier

/-- How a table came to be. -/
inductive TableOrigin where
  /-- By a header of its own. -/
  | header
  /-- On the way to a table whose header names it. -/
  | implied
  /-- On the way to a value whose dotted key names it. -/
  | dotted
  /-- Between braces. -/
  | inline
deriving DecidableEq, Repr, Inhabited

/-- A TOML value. -/
inductive Toml where
  | str (s : String)
  | int (n : Int)
  | float
  | bool (b : Bool)
  | datetime
  | array (items : List Toml)
  /-- The tables of an array that headers in double brackets extend. -/
  | tables (items : List Toml)
  | table (origin : TableOrigin) (entries : List (String × Toml))
deriving Repr, Inhabited

namespace Toml

/-- The entries of a table. -/
abbrev Entries := List (String × Toml)

/-- The value of a key. -/
def lookup (key : String) (entries : Entries) : Option Toml :=
  (entries.find? (·.1 = key)).map (·.2)

/-- Sets the value of a key, at its place if it has one. -/
def assign (key : String) (value : Toml) : Entries → Entries
  | [] => [(key, value)]
  | (other, old) :: rest =>
    if other = key then (key, value) :: rest else (other, old) :: assign key value rest

/-- The text of a string. -/
def str? : Toml → Option String
  | .str s => some s
  | _ => none

/-! ### Growing a table -/

/-- Adds a value under a dotted key.  Tables on the way must be made by dotted keys, and the last
    key must be new. -/
def insertAt (value : Toml) : List String → Entries → Option Entries
  | [], _ => none
  | [key], entries =>
    if (lookup key entries).isSome then none else some (entries ++ [(key, value)])
  | key :: keys, entries =>
    match lookup key entries with
    | none => (insertAt value keys []).map fun inner => entries ++ [(key, .table .dotted inner)]
    | some (.table .dotted inner) =>
      (insertAt value keys inner).map fun inner => assign key (.table .dotted inner) entries
    | some (.table .implied inner) =>
      match keys with
      | [_] => none
      | _ => (insertAt value keys inner).map fun inner => assign key (.table .implied inner) entries
    | some (.tables items) =>
      match keys, items.reverse with
      | [_], _ => none
      | _, .table origin inner :: before =>
        (insertAt value keys inner).map fun inner =>
          assign key (.tables (before.reverse ++ [.table origin inner])) entries
      | _, _ => none
    | some _ => none

/-- Changes the entries of the table that a path leads to.  A missing table on the way is made;
    an array of tables leads to its last table. -/
def modifyAt (change : Entries → Option Entries) : List String → Entries → Option Entries
  | [], entries => change entries
  | key :: keys, entries =>
    match lookup key entries with
    | none => (modifyAt change keys []).map fun inner => entries ++ [(key, .table .implied inner)]
    | some (.table .inline _) => none
    | some (.table origin inner) =>
      (modifyAt change keys inner).map fun inner => assign key (.table origin inner) entries
    | some (.tables items) =>
      match items.reverse with
      | .table origin inner :: before =>
        (modifyAt change keys inner).map fun inner =>
          assign key (.tables (before.reverse ++ [.table origin inner])) entries
      | _ => none
    | some _ => none

/-- Begins the section of a table: the key is new, or its table was only implied so far. -/
def openTable (path : List String) (key : String) (root : Entries) : Option Entries :=
  modifyAt (fun entries =>
    match lookup key entries with
    | none => some (entries ++ [(key, .table .header [])])
    | some (.table .implied inner) => some (assign key (.table .header inner) entries)
    | some _ => none) path root

/-- Begins the section of one more table of an array. -/
def openElement (path : List String) (key : String) (root : Entries) : Option Entries :=
  modifyAt (fun entries =>
    match lookup key entries with
    | none => some (entries ++ [(key, .tables [.table .header []])])
    | some (.tables items) => some (assign key (.tables (items ++ [.table .header []])) entries)
    | some _ => none) path root

end Toml

end Courier
