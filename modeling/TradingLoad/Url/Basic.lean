import TradingLoad.Url.Host

namespace TradingLoad

namespace Url

/-- What is known of a scheme: it belongs to the web, it names files, or it is some other one. -/
inductive SchemeKind where
  | web
  | file
  | other
  deriving DecidableEq, Repr

/-- The ports that need not be written. -/
def defaultPort (scheme : List Char) : Option Nat :=
  [("http", 80), ("ws", 80), ("https", 443), ("wss", 443), ("ftp", 21)].lookup
    (String.ofList scheme)

def SchemeKind.of (scheme : List Char) : SchemeKind :=
  if scheme = "file".toList then file
  else if (defaultPort scheme).isSome then web
  else other

/-- A path is a list of steps, each with a slash before it, or a text without any structure. -/
inductive Path where
  | flat (text : List Char)
  | steps (steps : List (List Char))
  deriving DecidableEq, Repr

namespace Path

def render : Path → List Char
  | flat text => text
  | steps ss => ss.flatMap ('/' :: ·)

/-- The path with a slash at its end. A flat path cannot begin with a slash, so an empty one gets an
escaped slash. -/
def closed : Path → Path
  | flat [] => flat ['%', '2', 'F']
  | flat text => if text.getLast? = some '/' then flat text else flat (text ++ ['/'])
  | steps ss => if ss.getLast? = some [] then steps ss else steps (ss ++ [[]])

/-- A closed path that has steps ends with an empty one. -/
theorem exists_closed_steps (ss : List (List Char)) :
    ∃ ts, (steps ss).closed = steps (ts ++ [[]]) := by
  rw [closed]
  split
  · next h =>
    obtain ⟨ts, rfl⟩ := List.getLast?_eq_some_iff.mp h
    exact ⟨ts, rfl⟩
  · exact ⟨ss, rfl⟩

end Path

end Url

/-- A URL. Every part is as it is written, that is with its characters escaped. -/
structure Url where
  scheme : List Char
  user : List Char
  password : List Char
  /-- There can be a host that is empty, and there can be none. -/
  host : Option Url.Host
  /-- The port, where it is not the default one of the scheme. -/
  port : Option Nat
  path : Url.Path
  query : Option (List Char)
  fragment : Option (List Char)
  deriving DecidableEq, Repr

namespace Url

open Text

def kind (u : Url) : SchemeKind := .of u.scheme

/-- Where the user and the password are empty there is no sign for them. -/
def renderUserinfo (u : Url) : List Char :=
  if u.user = [] ∧ u.password = [] then []
  else u.user ++ (if u.password = [] then [] else ':' :: u.password) ++ ['@']

/-- What stands between the scheme and the path. Without a host, a path whose first step is empty
gets a mark that keeps it from being read as a host. -/
def renderAuthority (u : Url) : List Char :=
  match u.host with
  | some host =>
    '/' :: '/' :: u.renderUserinfo ++ host.render ++
      (match u.port with
      | none => []
      | some port => ':' :: digits port)
  | none =>
    match u.path with
    | .steps ([] :: _ :: _) => ['/', '.']
    | _ => []

def renderTarget (u : Url) : List Char :=
  u.path.render ++
    (match u.query with
    | none => []
    | some query => '?' :: query)

/-- The text of a URL. -/
def render (u : Url) : List Char :=
  u.scheme ++ ':' :: u.renderAuthority ++ u.renderTarget ++
    (match u.fragment with
    | none => []
    | some fragment => '#' :: fragment)

/-- The URL with a slash at the end of its path, so that relative URLs are followed inside of it. -/
def asFolder (u : Url) : Url := { u with path := u.path.closed }

end Url

end TradingLoad
