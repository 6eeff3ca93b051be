/-
  Courier/Url/Basic.lean
  ======================
  **URLs and how they are written.**

  A URL is a scheme, an optional authority (user, password, host and port), a path
  and optional query and fragment, each already encoded.  A URL without authority
  whose path does not begin with a slash is *opaque*: nothing can be resolved
  against it.  `Url.text` writes a URL down; a path that begins with two slashes
  and follows no authority is written behind `/.`, so that it is not taken for one.
-/
import Courier.Url.Host

namespace Courier

open Courier.Text

namespace Url

/-! ### Schemes -/

/-- How the schemes differ in the reading of a URL. -/
inductive SchemeKind where
  | file
  /-- `http`, `https`, `ws`, `wss` and `ftp`. -/
  | special
  | other
deriving DecidableEq, Repr

/-- The kind of a scheme. -/
def schemeKind (scheme : List Char) : SchemeKind :=
  if scheme = "file".toList then .file
  else if ["http", "https", "ws", "wss", "ftp"].any fun s => scheme = s.toList then .special
  else .other

/-- Whether backslashes count as slashes. -/
def SchemeKind.isSpecial : SchemeKind → Bool
  | .other => false
  | _ => true

/-- The port that goes without saying. -/
def defaultPort? (scheme : List Char) : Option Nat :=
  if scheme = "http".toList ∨ scheme = "ws".toList then some 80
  else if scheme = "https".toList ∨ scheme = "wss".toList then some 443
  else if scheme = "ftp".toList then some 21
  else none

/-! ### The parts -/

/-- User, password, host and port. -/
structure Authority where
  username : List Char
  password : Option (List Char)
  host : Host
  port : Option Nat
deriving DecidableEq, Repr

/-- The authority of a host alone. -/
def Authority.ofHost (host : Host) : Authority := ⟨[], none, host, none⟩

/-- The text of an authority. -/
def Authority.text (a : Authority) : List Char :=
  let password := a.password.elim [] (':' :: ·)
  let user := a.username ++ password
  (if user.isEmpty then [] else user ++ ['@']) ++ a.host.text
    ++ a.port.elim [] fun port => ':' :: Nat.toDigits 10 port

end Url

/-- A URL; its parts are encoded. -/
structure Url where
  scheme : List Char
  authority : Option Url.Authority
  path : List Char
  query : Option (List Char)
  fragment : Option (List Char)
deriving DecidableEq, Repr

namespace Url

/-- The kind of the URL's scheme. -/
def kind (u : Url) : SchemeKind := schemeKind u.scheme

/-- Whether nothing can be resolved against the URL. -/
def isOpaque (u : Url) : Bool := u.authority.isNone && u.path.head? ≠ some '/'

/-- The host, if there is one. -/
def host? (u : Url) : Option Host :=
  u.authority.bind fun a => if a.host.isEmpty then none else some a.host

/-- Whether the URL is of the web. -/
def isHttp (u : Url) : Bool := u.scheme = "http".toList || u.scheme = "https".toList

/-- The characters of a URL. -/
def chars (u : Url) : List Char :=
  let front := match u.authority with
    | some a => "//".toList ++ a.text
    | none => if (dropLead? "//".toList u.path).isSome then "/.".toList else []
  u.scheme ++ ':' :: front ++ u.path ++ u.query.elim [] ('?' :: ·)
    ++ u.fragment.elim [] ('#' :: ·)

/-- The text of a URL. -/
def text (u : Url) : String := String.ofList u.chars

/-- The URL without user and password. -/
def withoutCredentials (u : Url) : Url :=
  { u with authority := u.authority.map fun a => { a with username := [], password := none } }

/-- The URL with its password, if there is one, replaced. -/
def withPassword (password : String) (u : Url) : Url :=
  { u with authority := u.authority.map fun a =>
      { a with password := a.password.map fun _ => encode userinfoSet password.toList } }

end Url

end Courier
