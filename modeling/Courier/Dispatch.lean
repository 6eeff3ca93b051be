/-
  Courier/Dispatch.lean
  =====================
  **Dispatching a work item: the request and the verdict on its response.**

  A claimed item is requested by GET at its URL, relative URLs being joined onto a
  base.  A status of the 200s completes the item, a status that is configured as
  retryable delays it, and everything else fails it, including a URL that cannot
  be resolved and a request that cannot be sent.  The network is a parameter: it
  answers each request with a status or drops it.
-/
import Courier.Url.Parser
import Courier.WorkItem

namespace Courier

open Courier.Text

/-! ### Settings -/

/-- The statuses that delay an item unless configured otherwise. -/
def defaultRetryStatusCodes : List Nat := [429]

/-- How items are requested. -/
structure DispatchConfig where
  /-- What relative URLs are joined onto. -/
  baseUrl : Option Url := none
  /-- The statuses that delay an item, in ascending order. -/
  retryStatusCodes : List Nat := defaultRetryStatusCodes
  /-- How the domain names of URLs are mapped to ASCII. -/
  toAscii : Url.DomainToAscii := Url.asciiDomains

/-! ### Verdicts -/

/-- The reason that goes with a status. -/
def statusReason (status : Nat) : String :=
  match status with
  | 100 => "Continue"
  | 101 => "Switching Protocols"
  | 102 => "Processing"
  | 103 => "Early Hints"
  | 300 => "Multiple Choices"
  | 301 => "Moved Permanently"
  | 302 => "Found"
  | 303 => "See Other"
  | 304 => "Not Modified"
  | 305 => "Use Proxy"
  | 307 => "Temporary Redirect"
  | 308 => "Permanent Redirect"
  | 400 => "Bad Request"
  | 401 => "Unauthorized"
  | 402 => "Payment Required"
  | 403 => "Forbidden"
  | 404 => "Not Found"
  | 405 => "Method Not Allowed"
  | 406 => "Not Acceptable"
  | 407 => "Proxy Authentication Required"
  | 408 => "Request Timeout"
  | 409 => "Conflict"
  | 410 => "Gone"
  | 411 => "Length Required"
  | 412 => "Precondition Failed"
  | 413 => "Payload Too Large"
  | 414 => "URI Too Long"
  | 415 => "Unsupported Media Type"
  | 416 => "Range Not Satisfiable"
  | 417 => "Expectation Failed"
  | 418 => "I'm a teapot"
  | 421 => "Misdirected Request"
  | 422 => "Unprocessable Entity"
  | 423 => "Locked"
  | 424 => "Failed Dependency"
  | 425 => "Too Early"
  | 426 => "Upgrade Required"
  | 428 => "Precondition Required"
  | 429 => "Too Many Requests"
  | 431 => "Request Header Fields Too Large"
  | 451 => "Unavailable For Legal Reasons"
  | 500 => "Internal Server Error"
  | 501 => "Not Implemented"
  | 502 => "Bad Gateway"
  | 503 => "Service Unavailable"
  | 504 => "Gateway Timeout"
  | 505 => "HTTP Version Not Supported"
  | 506 => "Variant Also Negotiates"
  | 507 => "Insufficient Storage"
  | 508 => "Loop Detected"
  | 510 => "Not Extended"
  | 511 => "Network Authentication Required"
  | _ => "<unknown status code>"

/-- Why an item failed. -/
inductive Failure where
  /-- The response had a status that neither completes nor delays. -/
  | status (code : Nat)
  /-- The item's URL cannot be resolved. -/
  | unresolvable (error : Error)
  /-- No request can be made of the URL. -/
  | unsendable (url : Url)
  /-- The request got no response. -/
  | dropped (url : Url)
deriving DecidableEq, Repr

/-- The wording of a failure. -/
def Failure.message : Failure → String
  | .status code => s!"http status {code} {statusReason code}"
  | .unresolvable error => error.message
  | .unsendable url => s!"builder error for url ({url.text})"
  | .dropped url => s!"error sending request for url ({url.text})"

/-- How a dispatch is settled. -/
inductive Outcome where
  | complete (status : Nat)
  | delay (status : Nat)
  | fail (failure : Failure)
deriving DecidableEq, Repr

namespace Outcome

/-- The word for an outcome. -/
def label : Outcome → String
  | .complete _ => "complete"
  | .delay _ => "delay"
  | .fail _ => "fail"

/-- The status of the response, if there was one. -/
def status? : Outcome → Option Nat
  | .complete status => some status
  | .delay status => some status
  | .fail (.status status) => some status
  | .fail _ => none

/-- The failure, if the outcome is one. -/
def failure? : Outcome → Option Failure
  | .fail failure => some failure
  | _ => none

end Outcome

/-! ### The network -/

/-- A request that was sent. -/
structure Request where
  itemId : WorkItemId
  url : Url
deriving DecidableEq, Repr

/-- What the network answers to a request. -/
inductive Reply where
  | status (code : Nat)
  | dropped
deriving DecidableEq, Repr

/-- A network answers each request, possibly differently each time: the first argument lists the
    requests before it, latest first. -/
abbrev Network := List Request → Request → Reply

/-- The network that nothing gets through. -/
def Network.unreachable : Network := fun _ _ => .dropped

/-! ### Dispatching -/

namespace Url

/-- The characters of a host that no request can carry. -/
def unsendableInHost (c : Char) : Bool := c = '"' || c = '\x60' || c = '\x7b' || c = '\x7d'

/-- Whether a request can be made of a URL. -/
def isSendable (u : Url) : Bool :=
  u.isHttp && u.chars.length < 65535 && match u.host? with
    | some host => !host.text.any unsendableInHost
    | none => false

/-- Whether an encoded text is UTF-8 once decoded. -/
def decodesAsUtf8 (cs : List Char) : Bool :=
  (String.fromUTF8? ⟨(decodeBytes cs).toArray⟩).isSome

/-- The URL as it is requested: user and password travel in a header. -/
def requested (u : Url) : Url :=
  match u.authority with
  | none => u
  | some a =>
    let hasPassword := a.password.any decodesAsUtf8
    if decodesAsUtf8 a.username && (!a.username.isEmpty || hasPassword) then u.withoutCredentials
    else u

end Url

namespace DispatchConfig

/-- Resolves the URL of an item. -/
def resolve (config : DispatchConfig) (url : String) : Except Error Url :=
  let resolved := match config.baseUrl with
    | some base => base.join url config.toAscii
    | none => Url.parse url config.toAscii
  match resolved with
  | .ok resolved => .ok resolved
  | .error fault => .error (.invalidUrl url fault.message)

/-- The verdict on a status. -/
def classify (config : DispatchConfig) (status : Nat) : Outcome :=
  if 200 ≤ status ∧ status < 300 then .complete status
  else if config.retryStatusCodes.contains status then .delay status
  else .fail (.status status)

/-- What a dispatch of an item comes to before anything is sent: a request or a failure. -/
def request (config : DispatchConfig) (item : WorkItem) : Except Failure Request :=
  match config.resolve item.url with
  | .error error => .error (.unresolvable error)
  | .ok url =>
    if (url.host?).isNone then .error (.unsendable url)
    else if url.isSendable then .ok ⟨item.id, url.requested⟩
    else .error (.unsendable url.requested)

/-- The outcome of a request once it is replied to. -/
def settle (config : DispatchConfig) (request : Request) : Reply → Outcome
  | .status status => config.classify status
  | .dropped => .fail (.dropped request.url)

/-- Dispatches an item; answers with the outcome and the requests sent so far, latest first. -/
def dispatch (config : DispatchConfig) (network : Network) (sent : List Request)
    (item : WorkItem) : Outcome × List Request :=
  match config.request item with
  | .error failure => (.fail failure, sent)
  | .ok request => (config.settle request (network sent request), request :: sent)

end DispatchConfig

end Courier
