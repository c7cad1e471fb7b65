import TradingLoad.Exchange.Call
import TradingLoad.Http.Session

namespace TradingLoad.Http

open Text

/-- The route of a call. -/
def route : Call → String
  | .top => "/"
  | .signup => "/signup"
  | .signin => "/signin"
  | .info _ => "/info"
  | .getOrders => "/orders"
  | .addOrder _ _ _ => "/orders"
  | .deleteOrder id => "/order/" ++ signedDecimal id

def methodOf : Call → Method
  | .signup => .post
  | .signin => .post
  | .addOrder _ _ _ => .post
  | .deleteOrder _ => .delete
  | _ => .get

namespace Session

/-- The fields of the form that goes along with a call. -/
def formOf? (s : Session) : Call → Option (List (String × String))
  | .signup =>
    some [("name", s.credentials.name), ("bank_id", s.credentials.account),
      ("password", s.credentials.password)]
  | .signin => some [("bank_id", s.credentials.account), ("password", s.credentials.password)]
  | .addOrder side amount price =>
    some [("type", side.word), ("amount", signedDecimal amount), ("price", signedDecimal price)]
  | _ => none

/-- A URL with one more field in its query. -/
def withQueryField (u : Url) (name value : String) : Url :=
  let field := encodeForm [(name, value)]
  { u with
    query := some (match u.query with
      | none | some [] => field
      | some q => q ++ '&' :: field) }

/-- The request that makes a call. -/
def requestOf (s : Session) (c : Call) : Except Failure Request := do
  let url ← s.endpoint (route c)
  let url := match c with
    | .info cursor => withQueryField url "cursor" (signedDecimal cursor)
    | _ => url
  return { method := methodOf c, url, cookie := none, form := (s.formOf? c).map encodeForm }

/-- A value in the body of a response. -/
def decode {α : Type} (read : JsonValue → Option α) (a : Response) : Except Failure α := do
  match (JsonValue.parse? (← a.text)).bind read with
  | some v => return v
  | none => throw (.malformed "the body of the response is not what it should be")

/-- An order that a response accepts; its number has to be positive. -/
def acceptedOf (side : Side) (amount price : Int) (now : Timestamp) (a : Response) :
    Except Failure Order := do
  let accepted ← decode AcceptedReply.ofJson? a
  if accepted.id ≤ 0 then
    throw (.invalidResponse ("order accepted with id " ++ signedDecimal accepted.id))
  return Order.placed accepted.id side amount price now

/-- The reply in a response of success. -/
def replyOf (now : Timestamp) : (c : Call) → Response → c.Reply
  | .top, _ => .ok ()
  | .signup, _ => .ok ()
  | .signin, _ => .ok ()
  | .info _, a => decode InfoSnapshot.ofJson? a
  | .getOrders, a => decode Order.listOfJson? a
  | .addOrder side amount price, a => acceptedOf side amount price now a
  | .deleteOrder _, _ => .ok ()

variable {ν : Type}

/-- Makes a call. A session whose base has no room for routes makes none. -/
def call (net : Network ν) (now : Timestamp) (c : Call) (s : Session) (x : ν) :
    c.Reply × Session × ν :=
  match s.requestOf c with
  | .error failure => (.error failure, s, x)
  | .ok r =>
    match s.send net r x with
    | (.error failure, s, x) => (.error failure, s, x)
    | (.ok a, s, x) => (replyOf now c a, s, x)

end Session

variable {ν : Type}

/-- How long a call takes. -/
def latencyOf (net : Network ν) (s : Session) (x : ν) (c : Call) : Option Nat :=
  match s.requestOf c with
  | .error _ => some 0
  | .ok r => if isWeb r.url then net.latency r x else some 0

/-- A session and the network around it, as the exchange that an investor meets. -/
def exchange (net : Network ν) (now : Timestamp) : Exchange (Session × ν) where
  note _ _ p := p
  latency p c := latencyOf net p.1 p.2 c
  reply c p :=
    let (reply, s, x) := p.1.call net now c p.2
    (reply, (s, x))
  isRetired p := p.1.health.retired
  retire p := (p.1.retire, p.2)

end TradingLoad.Http
