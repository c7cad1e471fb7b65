import TradingLoad.Http.Message
import TradingLoad.Text.Blank

namespace TradingLoad.Http

open Text

structure Cookie where
  name : List Char
  value : List Char
  /-- The host that the cookie belongs to. -/
  host : List Char
  /-- Hosts below that one have the cookie too. -/
  inSubdomains : Bool
  path : List Char
  /-- The cookie is sent over secure connections only. -/
  isSecure : Bool
  deriving DecidableEq, Repr

/-- The cookies of a client, the oldest first. -/
abbrev CookieJar := List Cookie

namespace Cookie

/-- The text of the host of a URL. -/
def hostOf (u : Url) : List Char := (u.host.map Url.Host.render).getD []

/-- The path in which a cookie counts that names none: up to the last slash of the request. -/
def defaultPath (u : Url) : List Char :=
  let folder := (u.path.render.reverse.dropWhile (· ≠ '/')).drop 1 |>.reverse
  if folder = [] then ['/'] else folder

/-- A host is another one or lies below it. -/
def isInside (host domain : List Char) : Bool :=
  host = domain || ('.' :: domain).isSuffixOf host

/-- A path is another one or lies in it. -/
def isPathInside (path folder : List Char) : Bool :=
  path = folder ||
    (folder.isPrefixOf path &&
      (folder.getLast? = some '/' || (path.drop folder.length).head? = some '/'))

/-- The cookie goes along with a request to a URL. -/
def isFor (c : Cookie) (u : Url) : Bool :=
  (if c.inSubdomains then isInside (hostOf u) c.host else hostOf u = c.host) &&
    isPathInside u.path.render c.path && (!c.isSecure || u.scheme = "https".toList)

/-- Two cookies of which one replaces the other. -/
def isSameAs (a b : Cookie) : Bool := a.name = b.name && a.host = b.host && a.path = b.path

end Cookie

/-- A name and what stands after its sign, without blanks around either. -/
def splitAssignment (cs : List Char) : List Char × Option (List Char) :=
  let (name, rest) := Url.cut (· = '=') cs
  (trimBlanks name, rest.tail?.map trimBlanks)

/-- The attributes of a cookie, their names in small letters. -/
abbrev CookieAttributes := List (List Char × Option (List Char))

namespace CookieAttributes

/-- The last value of an attribute. -/
def value? (as : CookieAttributes) (name : String) : Option (List Char) :=
  (as.reverse.lookup name.toList).join

/-- The attributes leave the cookie no time to live. -/
def isExpired (as : CookieAttributes) : Bool :=
  match as.value? "max-age" with
  | none => false
  | some cs =>
    match cs with
    | '-' :: ds => ds ≠ [] && ds.all Char.isDigit
    | ds => ds ≠ [] && ds.all (· = '0')

end CookieAttributes

/-- A cookie as a response to a request for a URL sets it, with its attributes. It may belong to the
host of the URL or to one above it. -/
def Cookie.ofHeader? (u : Url) (text : String) : Option (Cookie × CookieAttributes) := do
  match (Url.splitAt ';' text.toList).map splitAssignment with
  | (name, some value) :: rest =>
    let attributes : CookieAttributes := rest.map fun a => (a.1.map Char.toLower, a.2)
    let domain := (attributes.value? "domain").map fun d =>
      (if d.head? = some '.' then d.drop 1 else d).map Char.toLower
    let host ← match domain with
      | none | some [] => some (hostOf u)
      | some d => if isInside (hostOf u) d then some d else none
    let path := match attributes.value? "path" with
      | some ('/' :: r) => '/' :: r
      | _ => defaultPath u
    let inSubdomains := domain.any (· ≠ [])
    let isSecure := (attributes.lookup "secure".toList).isSome
    if name = [] then none
    else some ({ name, value, host, inSubdomains, path, isSecure }, attributes)
  | _ => none

namespace CookieJar

/-- The jar after one header of a response to a request for a URL. -/
def set (jar : CookieJar) (u : Url) (text : String) : CookieJar :=
  match Cookie.ofHeader? u text with
  | none => jar
  | some (c, attributes) =>
    let others := jar.filter fun d => !c.isSameAs d
    if attributes.isExpired then others else others ++ [c]

/-- The jar after a response. -/
def store (jar : CookieJar) (u : Url) (r : Response) : CookieJar :=
  (r.header "set-cookie").foldl (fun jar text => jar.set u text) jar

/-- What a request for a URL says of the cookies, if there are any for it. -/
def header? (jar : CookieJar) (u : Url) : Option (List Char) :=
  match jar.filter (·.isFor u) with
  | [] => none
  | cs => some ([';', ' '].intercalate (cs.map fun c => c.name ++ '=' :: c.value))

end CookieJar

end TradingLoad.Http
