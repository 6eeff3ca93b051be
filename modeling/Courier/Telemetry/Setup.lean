/-
  Courier/Telemetry/Setup.lean
  ============================
  **Setting up telemetry.**

  Log events are filtered by the filter of the environment, if that is well-formed,
  else by the configured one, of which malformed directives are left out.  With an
  endpoint, telemetry is sent there too.  Telemetry is set up once per process.
-/
import Courier.Error
import Courier.Telemetry.Endpoint
import Courier.Telemetry.Filter

namespace Courier.Telemetry

/-- How telemetry is set up. -/
structure Setup where
  /-- Where telemetry is sent; an empty text stands for the usual place. -/
  endpoint : Option String := none
  /-- The filter that holds if the environment has none. -/
  logLevel : String
deriving DecidableEq, Repr

namespace Setup

/-- The filter of log events, given that of the environment. -/
def filter (setup : Setup) (environment : Option String) : Filter :=
  (environment.bind Filter.parse?).getD (.ofText setup.logLevel)

/-- What there is to say about the filter. -/
def complaints (setup : Setup) (environment : Option String) : List String :=
  if (environment.bind Filter.parse?).isSome then [] else Filter.complaints setup.logLevel

/-- Whether telemetry can be sent. -/
def checkEndpoint (setup : Setup) : Except Error Unit :=
  match setup.endpoint.filter (· ≠ "") with
  | none => .ok ()
  | some endpoint =>
    match Endpoint.check endpoint with
    | .ok () => .ok ()
    | .error fault =>
      .error (.other ("failed to create OTLP span exporter: "
        ++ s!"invalid URI {endpoint}. Reason {fault.message}"))

/-- Sets telemetry up; answers with the filter of log events.  `installed` says whether it has been
    set up before. -/
def install (setup : Setup) (environment : Option String) (installed : Bool) :
    Except Error Filter :=
  match setup.checkEndpoint with
  | .error e => .error e
  | .ok () =>
    if installed then
      .error (.other ("failed to init tracing subscriber: "
        ++ "a global default trace dispatcher has already been set"))
    else .ok (setup.filter environment)

end Setup

end Courier.Telemetry
