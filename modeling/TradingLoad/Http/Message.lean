import TradingLoad.Failure
import TradingLoad.Url.Reader

namespace TradingLoad.Http

open Text

inductive Method where
  | get
  | post
  | delete
  deriving DecidableEq, Repr

def Method.word : Method → String
  | get => "GET"
  | post => "POST"
  | delete => "DELETE"

structure Request where
  method : Method
  url : Url
  cookie : Option (List Char)
  /-- A filled-in form, in its encoded shape. -/
  form : Option (List Char)
  deriving DecidableEq, Repr

namespace Request

/-- The path and the query, as they are sent. -/
def target (r : Request) : List Char := r.url.renderTarget

def contentType? (r : Request) : Option String :=
  r.form.map fun _ => "application/x-www-form-urlencoded"

end Request

structure Response where
  status : Nat
  headers : List (String × String)
  body : Octets
  /-- The connection was closed only after the whole body. -/
  isComplete : Bool

namespace Response

def isSuccess (r : Response) : Bool := 200 ≤ r.status && r.status < 300

/-- The values of a header; names of headers do not depend on case. -/
def header (r : Response) (name : String) : List String :=
  (r.headers.filter fun h => h.1.map Char.toLower = name).map Prod.snd

/-- Some responses have no body whatever is sent after them. -/
def isBodiless (r : Response) : Bool := r.status = 204 || r.status = 304

/-- The text of the body, if all of it has come. -/
def text (r : Response) : Except Failure String :=
  if r.isBodiless then .ok ""
  else if r.isComplete then .ok (String.ofList (ofUtf8Document r.body))
  else .error (.transport .bodyIncomplete)

end Response

/-- What became of a request. -/
abbrev Delivery := Except TransportCause Response

/-- A network with states of type `ν`. -/
structure Network (ν : Type) where
  send : Request → ν → Delivery × ν
  /-- How many milliseconds pass until a request has its delivery; none for ever. -/
  latency : Request → ν → Option Nat

namespace Network

/-- A network without any server. That the address of a host is not answered shows at once; to look
up the name of a host takes a moment. -/
def unreachable : Network Unit where
  send _ s := (.error .unreachable, s)
  latency r _ :=
    match r.url.host with
    | some (.name _) => some 1
    | _ => some 0

end Network

/-- The characters that stand for themselves in a form. -/
def isFormChar (c : Char) : Bool := c.isAlphanum || c = '*' || c = '-' || c = '.' || c = '_'

/-- A text as a form holds it. -/
def encodeFormText (cs : List Char) : List Char :=
  cs.flatMap fun c =>
    if isFormChar c then [c] else if c = ' ' then ['+'] else Url.escapeChar c

/-- The fields of a form with their values. -/
def encodeForm (fields : List (String × String)) : List Char :=
  ['&'].intercalate <| fields.map fun f =>
    encodeFormText f.1.toList ++ '=' :: encodeFormText f.2.toList

end TradingLoad.Http
