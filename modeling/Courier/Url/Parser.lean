/-
  Courier/Url/Parser.lean
  =======================
  **Reading URLs, absolute and relative.**

  `Url.parse` reads an absolute URL and `Url.join` a URL that may be relative to a
  base.  Control characters and blanks around the text and all tabs and line
  breaks in it are dropped first.  A text is then cut into what comes before the
  first `#`, what comes before the first `?`, and the rest, and read from the
  front: scheme, authority, path.  Domain names are mapped to ASCII as a parameter
  says.
-/
import Courier.Url.Path

namespace Courier.Url

open Courier.Text

/-! ### Cutting a text -/

/-- A text without the characters that a URL never holds. -/
def cleaned (cs : List Char) : List Char :=
  let outer (c : Char) := c.toNat ≤ 0x20
  let inner := ((cs.dropWhile outer).reverse.dropWhile outer).reverse
  inner.filter fun c => !(c = '\t' || c = '\n' || c = '\r')

/-- A text before the first occurrence of a character, and what follows that character. -/
def cutAt (mark : Char) (cs : List Char) : List Char × Option (List Char) :=
  match cs.dropWhile (· ≠ mark) with
  | [] => (cs, none)
  | _ :: rest => (cs.takeWhile (· ≠ mark), some rest)

/-- A text cut into hierarchical part, query and fragment. -/
structure Parts where
  front : List Char
  query : Option (List Char)
  fragment : Option (List Char)
deriving DecidableEq, Repr

/-- Cuts a text into its parts. -/
def Parts.ofText (cs : List Char) : Parts :=
  let (beforeFragment, fragment) := cutAt '#' cs
  let (front, query) := cutAt '?' beforeFragment
  ⟨front, query, fragment⟩

/-- The scheme of a text, in lower case, and what follows its colon. -/
def scheme? (cs : List Char) : Option (List Char × List Char) :=
  match cs with
  | [] => none
  | first :: _ =>
    let scheme := cs.takeWhile fun c => isLetter c || isDigit c || c = '+' || c = '-' || c = '.'
    match isLetter first, cs.drop scheme.length with
    | true, ':' :: rest => some (lowercase scheme, rest)
    | _, _ => none

/-- Whether a character ends an authority. -/
def endsAuthority (kind : SchemeKind) (c : Char) : Bool := c = '/' || (kind.isSpecial && c = '\\')

/-- A query and a fragment as they stand in a URL. -/
def Parts.finish (p : Parts) (scheme : List Char) (authority : Option Authority)
    (path : List Char) : Url where
  scheme
  authority
  path
  query := p.query.map (encode (querySet (schemeKind scheme).isSpecial))
  fragment := p.fragment.map (encode fragmentSet)

/-! ### The authority -/

variable (toAscii : DomainToAscii)

/-- User, password and the text behind the last `@`. -/
structure UserPart where
  username : List Char
  password : Option (List Char)
  host : List Char
deriving DecidableEq, Repr

/-- The text in front of the last occurrence of a character, and what follows it. -/
def cutAtLast (mark : Char) (cs : List Char) : Option (List Char × List Char) :=
  match cs.reverse.dropWhile (· ≠ mark) with
  | [] => none
  | _ :: front => some (front.reverse, (cs.reverse.takeWhile (· ≠ mark)).reverse)

/-- Reads user and password.  `more` says whether anything follows the authority. -/
def UserPart.ofText (cs : List Char) (more : Bool) : Except Fault UserPart :=
  match cutAtLast '@' cs with
  | none => .ok ⟨[], none, cs⟩
  | some ([], host) =>
    if host.isEmpty ∧ more then .error .emptyHost else .ok ⟨[], none, host⟩
  | some (user, host) =>
    let (username, password) := cutAt ':' user
    .ok ⟨encode userinfoSet username,
      match password with
        | none | some [] => none
        | some password => some (encode userinfoSet password), host⟩

/-- The text of a host, up to a colon outside brackets, and the text behind that colon. -/
def cutHost (inBrackets : Bool) : List Char → List Char × Option (List Char)
  | [] => ([], none)
  | c :: rest =>
    if c = ':' ∧ inBrackets = false then ([], some rest)
    else
      let inBrackets := if c = '[' then true else if c = ']' then false else inBrackets
      let (host, port) := cutHost inBrackets rest
      (c :: host, port)

/-- Reads a port; answers with what follows it, which begins with a backslash or is empty. -/
def portOf (scheme cs : List Char) : Except Fault (Option Nat × List Char) :=
  let digits := cs.takeWhile isDigit
  let rest := cs.drop digits.length
  let port := digits.foldl (fun n c => n * 10 + digitValue c) 0
  if 65535 < port then .error .invalidPort
  else if rest = [] ∨ rest.head? = some '\\' then
    .ok (if digits = [] ∨ defaultPort? scheme = some port then none else some port, rest)
  else .error .invalidPort

/-- Reads authority and path behind two slashes. -/
def afterSlashes (scheme : List Char) (parts : Parts) (cs : List Char) : Except Fault Url := do
  let kind := schemeKind scheme
  let text := cs.takeWhile fun c => !endsAuthority kind c
  let path := cs.drop text.length
  let user ← UserPart.ofText text (!path.isEmpty || parts.query.isSome || parts.fragment.isSome)
  let (hostText, portText) := cutHost false user.host
  let host ←
    if kind.isSpecial then
      if hostText.isEmpty then .error .emptyHost else Host.ofSpecial toAscii hostText
    else Host.ofOpaque hostText
  let hasUser := user.username ≠ [] ∨ user.password.isSome
  if host.isEmpty ∧ portText.isSome then .error .emptyHost
  else
    let (port, overrun) ← match portText with
      | none => .ok (none, [])
      | some text => portOf scheme text
    if host.isEmpty ∧ hasUser then .error .emptyHost
    else
      let authority : Authority := ⟨user.username, user.password, host, port⟩
      return parts.finish scheme (some authority) (pathAfterAuthority kind (overrun ++ path)).path

/-! ### The `file` scheme -/

/-- A `file` URL of a host and a path. -/
def fileUrl (parts : Parts) (host : Host) (path : List Char) : Url :=
  parts.finish "file".toList (some (.ofHost host)) path

/-- The first segment of a path. -/
def firstSegment (path : List Char) : List Char := (path.drop 1).takeWhile (· ≠ '/')

/-- The host of a URL, the empty one if it has none. -/
def hostOf (u : Url) : Host := (u.host?).getD (.name [])

/-- Whether the parts begin with a drive letter that is a segment of its own. -/
def partsBeginWithDrive (p : Parts) : Bool :=
  beginsWithDrive (p.front ++ (if p.query.isSome || p.fragment.isSome then ['?'] else []))

/-- Reads a `file` URL behind its colon, or relative to a `file` URL. -/
def fileOf (base? : Option Url) (parts : Parts) : Except Fault Url :=
  let isSlash (c : Char) := c = '/' || c = '\\'
  match parts.front with
  | a :: b :: rest =>
    if isSlash a && isSlash b then
      let hostText := rest.takeWhile fun c => !isSlash c
      if hostText.isEmpty || isDrive hostText then .ok (fileUrl parts (.name []) (rooted rest))
      else do
        let host ← Host.ofSpecial toAscii hostText
        let host := if host = .name "localhost".toList then .name [] else host
        let rest := rest.drop hostText.length
        if host.isEmpty then return fileUrl parts (.name []) (rooted rest)
        else
          let progress := pathAfterAuthority .file rest
          return fileUrl parts (if progress.dropsHost then .name [] else host) progress.path
    else if isSlash a then .ok (absolute parts.front (b :: rest))
    else .ok (relative parts.front)
  | [a] => .ok (if isSlash a then absolute [a] [] else relative [a])
  | [] => .ok (relative [])
where
  /-- A path from the root that follows no host. -/
  rooted (path : List Char) : List Char := (pathAfterAuthority .file path).path
  /-- A path from the root, on the host or the drive of the base. -/
  absolute (path afterSlash : List Char) : Url :=
    let drive := partsBeginWithDrive { parts with front := afterSlash }
    match (if drive then none else base?) with
    | some base =>
      let first := firstSegment base.path
      if isNormalDrive first then
        fileUrl parts (.name []) (extendPath .file ('/' :: first) path).path
      else fileUrl parts (hostOf base) (extendPath .file [] path).path
    | none => fileUrl parts (.name []) (extendPath .file [] path).path
  /-- A path from the place of the base. -/
  relative (path : List Char) : Url :=
    match base? with
    | some base =>
      if path.isEmpty then
        match parts.query with
        | some _ => parts.finish base.scheme base.authority base.path
        | none => { parts.finish base.scheme base.authority base.path with query := base.query }
      else if partsBeginWithDrive parts then
        fileUrl parts (.name []) (extendPath .file ['/'] path).path
      else
        let progress := extendPath .file (popSegment .file base.path) path
        parts.finish base.scheme base.authority progress.path
    | none => fileUrl parts (.name []) (extendPath .file ['/'] path).path

/-! ### Relative references -/

/-- Reads a reference relative to a base that is neither opaque nor of the `file` scheme. -/
def relativeTo (base : Url) (parts : Parts) : Except Fault Url :=
  let kind := base.kind
  let isSlash (c : Char) := c = '/' || c = '\\'
  let path (front : List Char) (input : List Char) : Url :=
    parts.finish base.scheme base.authority (extendPath kind front input).path
  match parts.front with
  | [] =>
    match parts.query with
    | some _ => .ok (parts.finish base.scheme base.authority base.path)
    | none => .ok { parts.finish base.scheme base.authority base.path with query := base.query }
  | first :: rest =>
    if isSlash first then
      match rest with
      | second :: more =>
        if isSlash second then
          if first = '/' ∧ second = '/' then afterSlashes toAscii base.scheme parts more
          else afterSlashes toAscii base.scheme parts ((first :: rest).dropWhile isSlash)
        else .ok (path ['/'] rest)
      | [] => .ok (path ['/'] rest)
    else
      let front := popSegment kind base.path
      .ok (path (if front.isEmpty then ['/'] else front) parts.front)

/-! ### Whole URLs -/

/-- Reads what follows a scheme. -/
def ofScheme (base? : Option Url) (scheme : List Char) (parts : Parts) : Except Fault Url :=
  match schemeKind scheme with
  | .file => fileOf toAscii (base?.filter (·.scheme = scheme)) parts
  | .special =>
    let isSlash (c : Char) := c = '/' || c = '\\'
    let slashes := (parts.front.takeWhile isSlash).length
    let direct := afterSlashes toAscii scheme parts (parts.front.drop slashes)
    match base? with
    | some base =>
      if slashes < 2 ∧ base.scheme = scheme then relativeTo toAscii base parts else direct
    | none => direct
  | .other =>
    match parts.front with
    | '/' :: '/' :: rest => afterSlashes toAscii scheme parts rest
    | '/' :: rest => .ok (parts.finish scheme none (extendPath .other ['/'] rest).path)
    | cs => .ok (parts.finish scheme none (encode controlSet cs))

/-- Reads a URL that may be relative to a base. -/
def resolve (base? : Option Url) (text : List Char) : Except Fault Url :=
  let cs := cleaned text
  match scheme? cs with
  | some (scheme, rest) => ofScheme toAscii base? scheme (.ofText rest)
  | none =>
    match base? with
    | none => .error .relativeWithoutBase
    | some base =>
      let parts := Parts.ofText cs
      if cs.head? = some '#' then
        .ok { base with fragment := parts.fragment.map (encode fragmentSet) }
      else if base.isOpaque then .error .baseIsOpaque
      else if base.kind = .file then fileOf toAscii (some base) parts
      else relativeTo toAscii base parts

end Courier.Url

namespace Courier

/-- Reads an absolute URL. -/
def Url.parse (text : String) (toAscii : Url.DomainToAscii := Url.asciiDomains) :
    Except Url.Fault Url :=
  Url.resolve toAscii none text.toList

/-- Reads a URL that may be relative to a base. -/
def Url.join (base : Url) (text : String) (toAscii : Url.DomainToAscii) : Except Url.Fault Url :=
  Url.resolve toAscii (some base) text.toList

end Courier
