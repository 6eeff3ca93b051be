/-
  Courier/Url/Query.lean
  ======================
  **The pairs of a query.**

  A query may hold pairs of a name and a value with ampersands between them.  Both
  are percent-encoded, with a plus sign for a blank; bytes that are no UTF-8 are
  read as the replacement character.
-/
import Courier.Text.Utf8
import Courier.Url.Basic

namespace Courier.Url

open Courier.Text

/-- A name or a value as it is meant. -/
def decodeForm (cs : List Char) : String :=
  String.ofList (Utf8.lossy (decodeBytes (cs.map fun c => if c = '+' then ' ' else c)))

/-- A pair, cut at the first equals sign. -/
def pairOf (cs : List Char) : String × String :=
  let (name, rest) := cs.span (· ≠ '=')
  (decodeForm name, decodeForm (rest.drop 1))

/-- The pairs of a URL's query, in order. -/
def queryPairs (u : Url) : List (String × String) :=
  ((splitAt '&' (u.query.getD [])).filter (!·.isEmpty)).map pairOf

end Courier.Url
