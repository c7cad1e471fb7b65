import TradingLoad.Url.Steps

namespace TradingLoad.Url

open Text

/-- Control characters and blanks at the ends of a text do not count, nor do line breaks and tabs
anywhere. -/
def clean (cs : List Char) : List Char :=
  let cs := cs.dropWhile fun c => c.toNat ≤ 32
  let cs := (cs.reverse.dropWhile fun c => c.toNat ≤ 32).reverse
  cs.filter fun c => c ≠ '\t' && c ≠ '\n' && c ≠ '\r'

/-- The text before the first of some characters, and the text from it on. -/
def cut (isEnd : Char → Bool) (cs : List Char) : List Char × List Char :=
  (cs.takeWhile fun c => !isEnd c, cs.dropWhile fun c => !isEnd c)

def isSchemeChar (c : Char) : Bool := c.isAlphanum || c = '+' || c = '-' || c = '.'

/-- The scheme and the text after its colon. -/
def splitScheme? (cs : List Char) : Option (List Char × List Char) :=
  match cs, cut (fun c => !isSchemeChar c) cs with
  | c :: _, (scheme, ':' :: rest) =>
    if c.isAlpha then some (scheme.map Char.toLower, rest) else none
  | _, _ => none

/-- The text of a path, and the query and the fragment after it. -/
structure Tail where
  path : List Char
  query : Option (List Char)
  fragment : Option (List Char)

def Tail.of (kind : SchemeKind) (cs : List Char) : Tail :=
  let (front, hash) := cut (· = '#') cs
  let (path, mark) := cut (· = '?') front
  let set := if kind = .other then EscapeSet.query else EscapeSet.specialQuery
  { path
    query := mark.tail?.map (escape set)
    fragment := hash.tail?.map (escape .fragment) }

/-- A URL with a given path, and with the query and the fragment of a tail. -/
def withTail (u : Url) (path : Path) (tail : Tail) : Url :=
  { u with path, query := tail.query, fragment := tail.fragment }

/-- The characters that end an authority. -/
def endsAuthority (kind : SchemeKind) (c : Char) : Bool :=
  isSlash kind c || c = '?' || c = '#'

/-- The text of the user and the one after its sign, which is the last of its kind. -/
def splitUserinfo (authority : List Char) : Option (List Char) × List Char :=
  let host := (authority.reverse.takeWhile (· ≠ '@')).reverse
  if host.length = authority.length then (none, host)
  else (some (authority.take (authority.length - host.length - 1)), host)

/-- The host and the text from its colon on. A colon in brackets belongs to the host. -/
def splitHost : Bool → List Char → List Char × List Char
  | _, [] => ([], [])
  | inside, c :: r =>
    if c = ':' ∧ !inside then ([], c :: r)
    else
      let (host, rest) := splitHost (c = '[' || (inside && c ≠ ']')) r
      (c :: host, rest)

/-- The port, and the text after it. -/
def readPort (scheme : List Char) (cs : List Char) :
    Except UrlError (Option Nat × List Char) :=
  let (ds, rest) := spanDigits cs
  if 65535 < digitsValue ds then .error .invalidPort
  else
    match rest with
    | [] | '\\' :: _ =>
      .ok (if ds = [] ∨ defaultPort scheme = some (digitsValue ds) then none
        else some (digitsValue ds), rest)
    | _ => .error .invalidPort

/-- A URL with the authority at the start of a text, and with what follows it. -/
def ofAuthority (scheme cs : List Char) : Except UrlError Url := do
  let kind := SchemeKind.of scheme
  let (authority, rest) := cut (endsAuthority kind) cs
  let (userinfo, host) := splitUserinfo authority
  if userinfo = some [] ∧ host = [] ∧ rest ≠ [] then throw .emptyHost
  let (user, password) := cut (· = ':') (userinfo.getD [])
  let user := escape .userinfo user
  let password := escape .userinfo (password.drop 1)
  let (hostText, portText) := splitHost false host
  if hostText = [] ∧ (kind ≠ .other ∨ portText ≠ []) then throw .emptyHost
  let host ← if kind = .other then Host.ofOther hostText else Host.ofSpecial hostText
  let (port, extra) ← readPort scheme (portText.drop 1)
  if hostText = [] ∧ ¬ (user = [] ∧ password = []) then throw .emptyHost
  let tail := Tail.of kind (extra ++ rest)
  let path :=
    match tail.path with
    | [] => if kind = .other then .steps [] else .steps [[]]
    | c :: r => pathFrom kind [] (if isSlash kind c then r else c :: r)
  return withTail ⟨scheme, user, password, some host, port, path, none, none⟩ path tail

/-- A file on a host whose name stands at the start of a text. The machine itself has no name, and
a drive belongs to it. -/
def ofFileHost (cs : List Char) : Except UrlError Url := do
  let (hostText, rest) := cut (endsAuthority .file) cs
  let (hostText, rest) := if isDrive hostText then ([], cs) else (hostText, rest)
  let host ← if hostText = [] then pure (.name []) else Host.ofSpecial hostText
  let tail := Tail.of .file rest
  let isLocal := host = .name "localhost".toList ∨ (splitSteps .file tail.path).any isDrive
  let host := if isLocal then .name [] else host
  let path := pathFrom .file [] tail.path
  return withTail ⟨"file".toList, [], [], some host, none, path, none, none⟩ path tail

/-- The root of the files of this machine. -/
def fileRoot : Url :=
  ⟨"file".toList, [], [], some (.name []), none, .steps [], none, none⟩

/-- A text begins with a drive as its first step. -/
def startsWithDrive (cs : List Char) : Bool := isDrive (cut (endsAuthority .file) cs).1

def Path.stepList : Path → List (List Char)
  | .flat _ => []
  | .steps ss => ss

/-- A file, perhaps relative to another one. -/
def ofFile (base : Option Url) (cs : List Char) : Except UrlError Url :=
  let tail := Tail.of .file cs
  let root := base.getD fileRoot
  match cs with
  | [] | '?' :: _ | '#' :: _ =>
    match base with
    | none => .ok (withTail root (pathFrom .file [] []) tail)
    | some b =>
      .ok { b with
        query := if tail.query = none ∧ cs.head? ≠ some '?' then b.query else tail.query
        fragment := tail.fragment }
  | c :: r =>
    if isSlash .file c then
      match r with
      | d :: rest =>
        if isSlash .file d then ofFileHost rest
        else .ok (withTail (if startsWithDrive r then fileRoot else root)
          (pathFrom .file [] tail.path) tail)
      | [] => .ok (withTail root (pathFrom .file [] tail.path) tail)
    else if startsWithDrive cs then .ok (withTail fileRoot (pathFrom .file [] tail.path) tail)
    else
      .ok (withTail root (pathFrom .file (stepBack .file root.path.stepList) tail.path) tail)

/-- A URL relative to one that has steps and names no file. -/
def relativeTo (base : Url) (cs : List Char) : Except UrlError Url :=
  let tail := Tail.of base.kind cs
  match cs with
  | [] => .ok { base with fragment := none }
  | '#' :: _ => .ok { base with fragment := tail.fragment }
  | '?' :: _ => .ok { base with query := tail.query, fragment := tail.fragment }
  | '/' :: '/' :: r => ofAuthority base.scheme r
  | c :: r =>
    if c = '/' ∨ c = '\\' then
      match r with
      | d :: _ =>
        if d = '/' ∨ d = '\\' then
          ofAuthority base.scheme (r.dropWhile fun c => c = '/' || c = '\\')
        else .ok (withTail base (pathFrom base.kind [] (tail.path.drop 1)) tail)
      | [] => .ok (withTail base (pathFrom base.kind [] (tail.path.drop 1)) tail)
    else
      .ok (withTail base (pathFrom base.kind base.path.stepList.dropLast tail.path) tail)

/-- A URL of a scheme of which nothing is known. -/
def ofOther (scheme cs : List Char) : Except UrlError Url :=
  match cs with
  | '/' :: '/' :: r => ofAuthority scheme r
  | _ =>
    let tail := Tail.of .other cs
    let path :=
      match tail.path with
      | '/' :: r => pathFrom .other [] r
      | text => .flat (escape .control text)
    .ok (withTail ⟨scheme, [], [], none, none, path, none, none⟩ path tail)

/-- The URL that a text with a scheme names, perhaps relative to one of the same scheme. -/
def ofScheme (base : Option Url) (scheme rest : List Char) : Except UrlError Url :=
  match SchemeKind.of scheme with
  | .other => ofOther scheme rest
  | .file => ofFile (base.filter fun b => b.kind = .file) rest
  | .web =>
    let (slashes, remaining) := (rest.takeWhile (isSlash .web), rest.dropWhile (isSlash .web))
    match base.filter fun b => slashes.length < 2 ∧ b.scheme = scheme with
    | some b => relativeTo b rest
    | none => ofAuthority scheme remaining

/-- The URL that a text names, perhaps relative to another one. -/
def read (base : Option Url) (text : List Char) : Except UrlError Url :=
  let cs := clean text
  match splitScheme? cs, base with
  | some (scheme, rest), _ => ofScheme base scheme rest
  | none, none => .error .relativeWithoutBase
  | none, some b =>
    match b.path, cs with
    | .flat _, '#' :: _ => .ok { b with fragment := (Tail.of .other cs).fragment }
    | .flat _, _ => .error .relativeToFlatBase
    | .steps _, _ => if b.kind = .file then ofFile b cs else relativeTo b cs

/-- The URL that a text names on its own. -/
def parse (text : String) : Except UrlError Url := read none text.toList

/-- The URL that a text names where the text stands in a document at the base. -/
def join (base : Url) (text : String) : Except UrlError Url := read base text.toList

end TradingLoad.Url
