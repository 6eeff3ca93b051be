/-
  Courier/Database/Connection.lean
  ================================
  **Where the database is.**

  A connection URL names the server, by host and port or by the path of a socket;
  settings in its query may name another one.  A URL that cannot be read, and
  settings that cannot, are faults of the configuration.  A server that was named
  may still not be reached; why, depends on how it is named.
-/
import Courier.Error
import Courier.Url.Parser
import Courier.Url.Query

namespace Courier.Database

open Courier.Text

/-! ### Options -/

/-- How a database is used. -/
structure Options where
  sharding : Sharding := .single
  /-- The number of connections at most. -/
  maxConnections : Nat := 10
  /-- Whether everything goes through one connection. -/
  singleConnection : Bool := false
deriving DecidableEq

/-! ### Targets -/

/-- Where a server listens. -/
inductive Target where
  | host (name : String)
  | socket (path : String)
deriving DecidableEq, Repr

/-- The server on the same machine. -/
def Target.here : Target := .host "localhost"

/-- The target that a text names: the path of a socket or a host. -/
def Target.ofText (text : String) : Target :=
  if text.toList.head? = some '/' then .socket text else .host text

/-- Whether a text is one of the four numbers of an address. -/
def isOctet (cs : List Char) : Bool :=
  match cs with
  | [c] => isDigit c
  | c :: rest =>
    isDigit c && c ≠ '0' && rest.length ≤ 2 && rest.all isDigit
      && cs.foldl (fun n d => n * 10 + digitValue d) 0 ≤ 255
  | [] => false

/-- Whether a text is an address of four numbers. -/
def isIpv4 (cs : List Char) : Bool :=
  let parts := splitAt '.' cs
  parts.length = 4 && parts.all isOctet

/-- Whether a text is an address. -/
def isAddress (text : String) : Bool :=
  isIpv4 text.toList || (Url.ipv6? text.toList).isSome

/-! ### Reading connection URLs -/

/-- The words for how a connection is secured. -/
def sslModes : List String :=
  ["disable", "allow", "prefer", "require", "verify-ca", "verify-full"]

/-- A part of a connection URL, decoded. -/
def decoded (cs : List Char) : Except DatabaseFault String :=
  let bytes := Url.decodeBytes cs
  match Utf8.fault? bytes with
  | some reason => .error (.configuration reason)
  | none => .ok (String.ofList (Utf8.lossy bytes))

/-- Reads a number among the settings. -/
def number (range : IntegerRange) (value : String) : Except DatabaseFault Unit :=
  match readInteger range value.toList with
  | .ok _ => .ok ()
  | .error fault => .error (.configuration fault.message)

/-- Reads one setting; it may name another target. -/
def setting (target : Target) (name value : String) : Except DatabaseFault Target :=
  if name = "sslmode" ∨ name = "ssl-mode" then
    if sslModes.contains (lowercased value) then .ok target
    else .error (.unknownWord value "ssl_mode")
  else if name = "statement-cache-capacity" then
    (number (.unsigned 64) value).map fun _ => target
  else if name = "port" then (number (.unsigned 16) value).map fun _ => target
  else if name = "host" then .ok (.ofText value)
  else if name = "hostaddr" then
    if isAddress value then .ok (.host value)
    else .error (.configuration "invalid IP address syntax")
  else .ok target

/-- Reads the target of a connection URL. -/
def targetOf (url : Url) : Except DatabaseFault Target := do
  let target ← match url.host? with
    | none => .ok Target.here
    | some host =>
      if (Url.decodeBytes host.text).head? = some '/'.toNat.toUInt8 then
        (decoded host.text).map .socket
      else .ok (.host (String.ofList host.text))
  match url.authority with
  | some a =>
    let _ ← decoded a.username
    let _ ← decoded (a.password.getD [])
  | none => .ok ()
  let _ ← decoded (url.path.dropWhile (· = '/'))
  url.queryPairs.foldlM (fun target (name, value) => setting target name value) target

/-- Reads a connection URL. -/
def target (text : String) (toAscii : Url.DomainToAscii) : Except DatabaseFault Target :=
  match Url.parse text toAscii with
  | .ok url => targetOf url
  | .error fault => .error (.configuration fault.message)

/-! ### Reaching the server -/

/-- Why a server cannot be reached from a machine without a network. -/
def Target.offlineReason : Target → String
  | .socket _ => "No such file or directory (os error 2)"
  | .host name =>
    if name = "localhost" ∨ isAddress (String.ofList (name.toList.filter fun c => c ≠ '[' && c ≠ ']'))
    then "Network is unreachable (os error 101)"
    else "failed to lookup address information: Temporary failure in name resolution"

/-- What comes of connecting to a database from a machine without a network. -/
def connectOffline (text : String) (toAscii : Url.DomainToAscii := Url.asciiDomains) :
    DatabaseFault :=
  match target text toAscii with
  | .error fault => fault
  | .ok target => .unreachable target.offlineReason

end Courier.Database
