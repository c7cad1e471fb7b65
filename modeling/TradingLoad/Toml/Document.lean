import TradingLoad.Config.Setting
import TradingLoad.Toml.Scalar

namespace TradingLoad.Toml

/-- A part of a document while it is read. -/
inductive Node where
  | value (v : Setting)
  /-- A table. It is implicit while only tables inside it are named, and dotted if a key with dots
  has made it. -/
  | table (isImplicit isDotted : Bool) (entries : List (String × Node))
  /-- Tables under one header in double brackets, the first one first. -/
  | tables (items : List (List (String × Node)))

abbrev Entries := List (String × Node)

/-- Replaces the entry with a key, or adds one at the end. -/
def setEntry (key : String) (node : Node) : Entries → Entries
  | [] => [(key, node)]
  | (k, n) :: es => if k = key then (k, node) :: es else (k, n) :: setEntry key node es

mutual

def Node.toSetting : Node → Setting
  | .value v => v
  | .table _ _ entries => .table (entriesToSettings entries)
  | .tables items => .list (itemsToSettings items)

def entriesToSettings : List (String × Node) → List (String × Setting)
  | [] => []
  | (k, n) :: es => (k, n.toSetting) :: entriesToSettings es

def itemsToSettings : List (List (String × Node)) → List Setting
  | [] => []
  | es :: rest => .table (entriesToSettings es) :: itemsToSettings rest

end

/-- Applies a change to the table at the end of a path. Tables on the way that are not there are
made implicit; of tables under double brackets the last one is meant. A key with dots does not reach
into a table that has a header of its own. The change is told whether the table is dotted. -/
def descend (dotted : Bool) (change : Bool → Entries → Option Entries) :
    List String → Bool → Entries → Option Entries
  | [], isDotted, entries => change isDotted entries
  | key :: path, _, entries =>
    match entries.lookup key with
    | none => do
      let inner ← descend dotted change path dotted []
      return setEntry key (.table true dotted inner) entries
    | some (.value _) => none
    | some (.table isImplicit isDotted inner) =>
      if dotted && !isImplicit then none
      else do
        let inner ← descend dotted change path isDotted inner
        return setEntry key (.table isImplicit isDotted inner) entries
    | some (.tables items) =>
      match items.getLast? with
      | none => none
      | some last => do
        let last ← descend dotted change path false last
        return setEntry key (.tables (items.dropLast ++ [last])) entries

/-- Adds a value that must not be there yet. A table made by a key with dots takes values by such
keys only, any other table only by keys without. -/
def addValue (plainKey : Bool) (key : String) (v : Setting) (isDotted : Bool)
    (entries : Entries) : Option Entries :=
  if isDotted = plainKey then none
  else if (entries.lookup key).isSome then none
  else some (entries ++ [(key, .value v)])

/-- Opens the table of a header. -/
def openTable (key : String) (_ : Bool) (entries : Entries) : Option Entries :=
  match entries.lookup key with
  | none => some (entries ++ [(key, .table false false [])])
  | some (.table true false inner) => some (setEntry key (.table false false inner) entries)
  | some _ => none

/-- Opens one more table of a header in double brackets. -/
def openItem (key : String) (_ : Bool) (entries : Entries) : Option Entries :=
  match entries.lookup key with
  | none => some (entries ++ [(key, .tables [[]])])
  | some (.tables items) => some (setEntry key (.tables (items ++ [[]])) entries)
  | some _ => none

def isBareKeyChar (c : Char) : Bool := c.isAlphanum || c = '_' || c = '-'

/-- A key without dots: bare, or a string on one line. -/
def simpleKey (cs : List Char) : Option (String × List Char) :=
  match cs with
  | '"' :: _ | '\'' :: _ => (lineString cs).map fun p => (String.ofList p.1, p.2)
  | _ =>
    match cs.takeWhile isBareKeyChar with
    | [] => none
    | key => some (String.ofList key, cs.dropWhile isBareKeyChar)

/-- Keys with dots between them, and blanks around each. -/
def keyPathFor : Nat → Reader (List String)
  | 0, _ => none
  | n + 1, cs => do
    let (key, r) ← simpleKey (skipInline cs)
    match skipInline r with
    | '.' :: r => do
      let (keys, r) ← keyPathFor n r
      return (key :: keys, r)
    | r => return ([key], r)

def keyPath (cs : List Char) : Option (List String × List Char) := keyPathFor (cs.length + 1) cs

/-- Values may be nested less deep than this. -/
def nesting : Nat := 80

/-- A value that is neither a list nor a table. -/
def scalar (cs : List Char) : Option (Setting × List Char) :=
  match cs with
  | '"' :: _ | '\'' :: _ => (string cs).map fun p => (.text (String.ofList p.1), p.2)
  | 't' :: 'r' :: 'u' :: 'e' :: r => some (.bool true, r)
  | 'f' :: 'a' :: 'l' :: 's' :: 'e' :: r => some (.bool false, r)
  | _ =>
    match dateTime cs with
    | some (t, r) => some (.text (String.ofList t), r)
    | none =>
      match number cs with
      | some (d, r) => some (.real d, r)
      | none =>
        match specialNumber cs with
        | some (d, r) => some (.real d, r)
        | none => (integer cs).map fun p => (.integer p.1, p.2)

/-- Adds the value of a key of an inline table. -/
def addInline (keys : List String) (v : Setting) (entries : Entries) : Option Entries :=
  match keys.getLast? with
  | none => none
  | some key => descend true (addValue (keys.length = 1) key v) keys.dropLast false entries

mutual

/-- A value; `depth` bounds the nesting, `n` the length. -/
def valueFor : Nat → Nat → Reader Setting
  | 0, _, _ => none
  | n + 1, depth, cs =>
    match cs with
    | '[' :: r =>
      if depth + 1 < nesting then (itemsFor n (depth + 1) r).map fun p => (.list p.1, p.2)
      else none
    | '\x7b' :: r =>
      if depth + 1 < nesting then
        match skipInline r with
        | '\x7d' :: r => some (.table [], r)
        | r => (pairsFor n (depth + 1) [] r).map fun p => (.table (entriesToSettings p.1), p.2)
      else none
    | cs => scalar cs

/-- The values of a list up to its closing bracket, with line breaks and comments between them. -/
def itemsFor : Nat → Nat → Reader (List Setting)
  | 0, _, _ => none
  | n + 1, depth, cs =>
    match skipGap cs with
    | ']' :: r => some ([], r)
    | r => do
      let (v, r) ← valueFor n depth r
      match skipGap r with
      | ',' :: r => do
        let (vs, r) ← itemsFor n depth r
        return (v :: vs, r)
      | ']' :: r => return ([v], r)
      | _ => none

/-- The keys and values of a table up to its closing brace. -/
def pairsFor : Nat → Nat → Entries → Reader Entries
  | 0, _, _, _ => none
  | n + 1, depth, entries, cs => do
    let (keys, r) ← keyPath cs
    match r with
    | '=' :: r => do
      let (v, r) ← valueFor n depth (skipInline r)
      let entries ← addInline keys v entries
      match skipInline r with
      | ',' :: r => pairsFor n depth entries r
      | '\x7d' :: r => return (entries, r)
      | _ => none
    | _ => none

end

/-- A document up to some line: its tables, and the header under which it stands. -/
structure State where
  root : Entries
  header : List String

/-- The rest of a line: blanks and a comment. -/
def lineEnd (cs : List Char) : Option (List Char) :=
  match skipComment (skipInline cs) with
  | [] => some []
  | r => afterBreak r

def addKey (s : State) (keys : List String) (v : Setting) : Option State :=
  match keys.getLast? with
  | none => none
  | some key => do
    let add := descend true (addValue (keys.length = 1) key v) keys.dropLast
    let root ← descend false add s.header false s.root
    return { s with root }

def openHeader (opening : String → Bool → Entries → Option Entries) (s : State)
    (keys : List String) : Option State :=
  match keys.getLast? with
  | none => none
  | some key => do
    let root ← descend false (opening key) keys.dropLast false s.root
    return ⟨root, keys⟩

/-- One line that is not blank, or several where a value runs over them. -/
def statement (s : State) (cs : List Char) : Option (State × List Char) :=
  match cs with
  | '[' :: '[' :: r => do
    let (keys, r) ← keyPath r
    match r with
    | ']' :: ']' :: r => return (← openHeader openItem s keys, r)
    | _ => none
  | '[' :: r => do
    let (keys, r) ← keyPath r
    match r with
    | ']' :: r => return (← openHeader openTable s keys, r)
    | _ => none
  | cs => do
    let (keys, r) ← keyPath cs
    match r with
    | '=' :: r => do
      let (v, r) ← valueFor (r.length + 1) 0 (skipInline r)
      return (← addKey s keys v, r)
    | _ => none

def documentFor : Nat → State → List Char → Option State
  | 0, _, _ => none
  | n + 1, s, cs =>
    match skipGap cs with
    | [] => some s
    | c :: r => do
      let (s, rest) ← statement s (c :: r)
      documentFor n s (← lineEnd rest)

/-- The tree of settings that a document describes; a byte order mark in front is passed over. -/
def parse? (text : String) : Option Setting :=
  let cs := match text.toList with
    | '\ufeff' :: r => r
    | r => r
  (documentFor (cs.length + 1) ⟨[], []⟩ cs).map fun s => .table (entriesToSettings s.root)

end TradingLoad.Toml
