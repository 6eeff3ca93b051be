/-
  Courier/Url/Path.lean
  =====================
  **Paths: segments, dots and drive letters.**

  A path is built segment by segment.  A segment `.` stands for its place, a
  segment `..` takes the last one away (both also with encoded dots), and in the
  `file` scheme a drive letter at the front of a path is kept and written with a
  colon.
-/
import Courier.Url.Basic

namespace Courier.Url

open Courier.Text

/-! ### Drive letters -/

/-- Whether a text begins with a drive letter that is a segment of its own. -/
def beginsWithDrive : List Char → Bool
  | a :: b :: rest =>
    isLetter a && (b = ':' || b = '|') && (match rest with
      | [] => true
      | c :: _ => c = '/' || c = '\\' || c = '?' || c = '#')
  | _ => false

/-- Whether a segment is a drive letter. -/
def isDrive (segment : List Char) : Bool := segment.length = 2 && beginsWithDrive segment

/-- Whether a segment is a drive letter written with a colon. -/
def isNormalDrive (segment : List Char) : Bool := isDrive segment && segment[1]? = some ':'

/-! ### Dots -/

/-- Whether a segment stands for its own place. -/
def isSingleDot (segment : List Char) : Bool :=
  let s := lowercase segment
  s = ['.'] || s = "%2e".toList

/-- Whether a segment takes the last one away. -/
def isDoubleDot (segment : List Char) : Bool :=
  ["..", ".%2e", "%2e.", "%2e%2e"].any fun s => lowercase segment = s.toList

/-- The part of a path behind its last slash. -/
def lastSegment (path : List Char) : List Char :=
  (path.reverse.takeWhile (· ≠ '/')).reverse

/-- A path up to and including its last slash. -/
def upToSlash (path : List Char) : List Char :=
  path.take (path.length - (lastSegment path).length)

/-- A path without its last segment; a drive letter stays. -/
def popSegment (kind : SchemeKind) (path : List Char) : List Char :=
  if kind = .file ∧ isNormalDrive (lastSegment path) then path else upToSlash path

/-- Whether the path ends in a slash. -/
def endsInSlash (path : List Char) : Bool := path.getLast? = some '/'

/-- A path that ends in a slash without that slash, unless it is the first one or ends a drive
    letter. -/
def dropLastSlash (path : List Char) : List Char :=
  let shorter := path.dropLast
  if endsInSlash path && shorter.contains '/' && !beginsWithDrive (lastSegment shorter ++ ['/'])
  then shorter else path

/-- Puts a slash at the end of a path that has none there. -/
def withLastSlash (path : List Char) : List Char :=
  if endsInSlash path then path else path ++ ['/']

/-! ### Building a path -/

/-- A path on the way, and whether a drive letter in it takes the place of the host. -/
structure PathProgress where
  path : List Char
  dropsHost : Bool := false
deriving DecidableEq, Repr

/-- Adds one segment to a path; `slash` says whether a slash follows it. -/
def PathProgress.add (kind : SchemeKind) (progress : PathProgress) (segment : List Char)
    (slash : Bool) : PathProgress :=
  let tail := if slash then ['/'] else []
  let path :=
    if kind = .file ∧ segment ≠ [] ∧ isNormalDrive (progress.path.drop 1) then
      progress.path ++ ['/']
    else progress.path
  let segment := encode pathSet segment
  if isDoubleDot segment then
    let path := popSegment kind (dropLastSlash path)
    { progress with path := if slash then withLastSlash path else path }
  else if isSingleDot segment then { progress with path := withLastSlash path }
  else if kind = .file ∧ path.length = 1 ∧ isDrive segment then
    { path := path ++ segment.take 1 ++ [':'] ++ tail, dropsHost := true }
  else { progress with path := path ++ segment ++ tail }

/-- Adds segments of which all but the last are followed by a slash. -/
def PathProgress.addAll (kind : SchemeKind) (progress : PathProgress) :
    List (List Char) → PathProgress
  | [] => progress
  | [segment] => progress.add kind segment false
  | segment :: segments => (progress.add kind segment true).addAll kind segments

/-- Backslashes as slashes, where the scheme takes them for slashes. -/
def slashed (kind : SchemeKind) (cs : List Char) : List Char :=
  if kind.isSpecial then cs.map fun c => if c = '\\' then '/' else c else cs

/-- Extends a path by a text of segments.  A `file` path begins with one slash only. -/
def extendPath (kind : SchemeKind) (path input : List Char) : PathProgress :=
  let progress := PathProgress.addAll kind { path } (splitAt '/' (slashed kind input))
  if kind = .file then { progress with path := '/' :: progress.path.dropWhile (· = '/') }
  else progress

/-- The path behind an authority. -/
def pathAfterAuthority (kind : SchemeKind) (input : List Char) : PathProgress :=
  match slashed kind input with
  | '/' :: rest => if kind.isSpecial then extendPath kind ['/'] rest else extendPath kind [] input
  | [] => if kind.isSpecial then extendPath kind ['/'] [] else { path := [] }
  | _ => extendPath kind ['/'] input

end Courier.Url
