import TradingLoad.Config.Settings
import TradingLoad.Exchange.Credentials
import TradingLoad.Http.Cookies
import TradingLoad.Http.Health
import TradingLoad.Market.Wire

namespace TradingLoad.Http

/-- The session of one investor with an exchange on the web. -/
structure Session where
  /-- The URL in which all routes of the exchange lie. -/
  base : Url
  credentials : Credentials
  cookies : CookieJar
  health : Health
  /-- So many requests in a row without a response are too many; 0 stands for no limit. -/
  limit : Nat
  deriving DecidableEq

/-- The most requests that are made for one. -/
def mostRequests : Nat := 10

def isWeb (u : Url) : Bool := u.scheme = "http".toList || u.scheme = "https".toList

def effectivePort (u : Url) : Option Nat := u.port <|> Url.defaultPort u.scheme

def isSameOrigin (u v : Url) : Bool := u.host = v.host && effectivePort u = effectivePort v

/-- The URL to which a response sends the client. -/
def redirection? (r : Request) (a : Response) : Option Url := do
  let text ← (a.header "location").head?
  match r.url.join text with
  | .ok u => if u.host.isSome then some u else none
  | .error _ => none

/-- A request for a URL with the cookies that belong there. Cookies that were on their way stay if
the host stays. -/
def Request.movedTo (r : Request) (u : Url) (cookies : CookieJar) : Request :=
  let carried := if isSameOrigin r.url u then r.cookie else none
  { r with url := u, cookie := cookies.header? u <|> carried }

/-- The request that follows a response, if the response is a redirection. Some redirections ask for
the same request again, others for a look at another place. -/
def Request.next? (r : Request) (a : Response) (cookies : CookieJar) : Option Request :=
  if a.status = 301 ∨ a.status = 302 ∨ a.status = 303 then
    (redirection? r a).map ({ r with method := .get, form := none }.movedTo · cookies)
  else if a.status = 307 ∨ a.status = 308 then (redirection? r a).map (r.movedTo · cookies)
  else none

variable {ν : Type}

/-- Sends a request and those that follow from it, so many at most. -/
def follow (net : Network ν) : Nat → Request → CookieJar → ν → Delivery × CookieJar × ν
  | 0, _, jar, s => (.error .tooManyRedirects, jar, s)
  | n + 1, r, jar, s =>
    if !isWeb r.url then
      (.error (.unsupportedScheme (String.ofList r.url.scheme)), jar, s)
    else
      match net.send r s with
      | (.error cause, s) => (.error cause, jar, s)
      | (.ok a, s) =>
        let jar := jar.store r.url a
        match r.next? a jar with
        | none => (.ok a, jar, s)
        | some r => follow net n r jar s

namespace Session

/-- A session with the exchange at a target. -/
def new (target : Target) (credentials : Credentials) : Except Failure Session :=
  match Url.parse target.baseUrl with
  | .error e =>
    .error (.configuration ("invalid base url " ++ target.baseUrl ++ ": " ++ e.message))
  | .ok u =>
    .ok { base := u.asFolder, credentials, cookies := [], health := .fresh,
          limit := target.maxTransportFailures }

/-- The URL of a route, which begins with a slash. -/
def endpoint (s : Session) (route : String) : Except Failure Url :=
  match s.base.join (String.ofList (route.toList.dropWhile (· = '/'))) with
  | .ok u => .ok u
  | .error e => .error (.internal ("bad endpoint " ++ route ++ ": " ++ e.message))

def retire (s : Session) : Session := { s with health := s.health.retire }

/-- The text of a response other than success: what it reports, else its whole body, else nothing.
-/
def reportOf (a : Response) : String :=
  match a.text with
  | .error _ => ""
  | .ok body =>
    match (JsonValue.parse? body).bind ErrorReply.ofJson? with
    | some e => if e.text = "" then body else e.text
    | none => body

/-- The health after a delivery. -/
def healthAfter (s : Session) : Delivery → Health
  | .error _ => s.health.unanswered s.limit
  | .ok _ => s.health.answered

/-- The response to a request, if it is one of success. -/
def successOf : Delivery → Except Failure Response
  | .error cause => .error (.transport cause)
  | .ok a => if a.isSuccess then .ok a else .error (.status a.status (reportOf a))

/-- Sends a request. -/
def send (net : Network ν) (s : Session) (r : Request) (x : ν) :
    Except Failure Response × Session × ν :=
  let r := { r with cookie := s.cookies.header? r.url }
  let (delivery, cookies, x) := follow net mostRequests r s.cookies x
  (successOf delivery, { s with cookies, health := s.healthAfter delivery }, x)

end Session

end TradingLoad.Http
