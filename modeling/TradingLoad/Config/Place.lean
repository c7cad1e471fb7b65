import TradingLoad.Config.Setting

namespace TradingLoad

open Text

/-- One step into a tree: to an entry of a table, or to an item of a list, counted from its end if
the number is negative. -/
inductive SettingStep where
  | entry (name : String)
  | item (index : Int)
  deriving DecidableEq, Repr

namespace SettingStep

def isNameChar (c : Char) : Bool := c.isAlphanum || c = ' ' || c = '_' || c = '-'

/-- A name at the start of a text. -/
def name? (cs : List Char) : Option (String × List Char) :=
  match cs.takeWhile isNameChar with
  | [] => none
  | name => some (String.ofList name, cs.dropWhile isNameChar)

/-- A number in brackets, after the first of them. -/
def index? (cs : List Char) : Option (Int × List Char) := do
  let (negative, r) := match cs.dropWhile (· = ' ') with
    | '-' :: r => (true, r)
    | r => (false, r)
  let (n, r) ← takeLongNumber r
  let r ← afterChar ']' (r.dropWhile (· = ' '))
  let a : Int := if negative then -(n : Int) else n
  if InInt64 a then some (a, r) else none

/-- The steps after the first one; so many of them at most. -/
def moreFor : Nat → List Char → Option (List SettingStep)
  | _, [] => some []
  | 0, _ => none
  | n + 1, '.' :: r => do
    let (name, r) ← name? r
    return entry name :: (← moreFor n r)
  | n + 1, '[' :: r => do
    let (index, r) ← index? r
    return item index :: (← moreFor n r)
  | _, _ => none

/-- The steps that the name of a setting tells. A text that tells none is the name of an entry
itself. -/
def ofName (name : String) : List SettingStep :=
  let found := do
    let (first, r) ← name? name.toList
    return entry first :: (← moreFor r.length r)
  found.getD [entry name]

end SettingStep

namespace Setting

/-- A letter of a name in its small form; the sign of the kelvin is a capital K. -/
def smallLetter (c : Char) : Char := if c = '\u212a' then 'k' else c.toLower

def smallName (name : String) : String := String.ofList (name.toList.map smallLetter)

/-- The entries of a table; what is none has no entries. -/
def entries : Setting → List (String × Setting)
  | table es => es
  | _ => []

/-- The items of a list; what is none has no items. -/
def items : Setting → List Setting
  | list vs => vs
  | _ => []

def setEntry (name : String) (v : Setting) : List (String × Setting) → List (String × Setting)
  | [] => [(name, v)]
  | e :: es => if e.1 = name then (name, v) :: es else e :: setEntry name v es

theorem lookup_setEntry (name key : String) (v : Setting) (es : List (String × Setting)) :
    (setEntry name v es).lookup key = if key = name then some v else es.lookup key := by
  induction es with
  | nil =>
    by_cases h : key = name
    · simp [setEntry, h]
    · simp [setEntry, List.lookup_cons, h, beq_false_of_ne h]
  | cons e es ih =>
    obtain ⟨k, w⟩ := e
    by_cases hk : k = name
    · subst hk
      by_cases h : key = k
      · simp [setEntry, h]
      · simp [setEntry, List.lookup_cons, h, beq_false_of_ne h]
    · by_cases h : key = k
      · subst h
        simp [setEntry, hk]
      · simp [setEntry, List.lookup_cons, hk, beq_false_of_ne h, ih]

/-- The tree with a value under a name. What is no table becomes one. -/
def withEntry (s : Setting) (name : String) (v : Setting) : Setting :=
  table (setEntry (smallName name) v s.entries)

def entry? (s : Setting) (name : String) : Option Setting := s.entries.lookup (smallName name)

mutual

/-- A value over an older one: a table goes into it entry by entry, any other value replaces it. -/
def merge (old : Setting) : Setting → Setting
  | table es => mergeEntries old es
  | new => new

def mergeEntries (old : Setting) : List (String × Setting) → Setting
  | [] => old
  | (name, v) :: es =>
    mergeEntries (old.withEntry name (merge ((old.entry? name).getD (table [])) v)) es

end

/-- The place of an item in a list of some length. -/
def itemPlace (index : Int) (length : Nat) : Nat :=
  if 0 ≤ index then index.toNat else length - index.natAbs

/-- The tree with a value as an item. What is no list becomes one, and a list that is too short is
filled up with nothing. -/
def withItem (s : Setting) (index : Int) (v : Setting) : Setting :=
  let place := itemPlace index s.items.length
  let filled := s.items ++ List.replicate (place + 1 - s.items.length) missing
  list (filled.set place v)

def item? (s : Setting) (index : Int) : Option Setting :=
  s.items[itemPlace index s.items.length]?

/-- The tree with a value at the place that some steps lead to. -/
def put (v : Setting) : List SettingStep → Setting → Setting
  | [], s => s
  | [.entry name], s => s.withEntry name (merge ((s.entry? name).getD (table [])) v)
  | [.item index], s => s.withItem index v
  | .entry name :: steps, s =>
    s.withEntry name (put v steps ((s.entry? name).getD missing))
  | .item index :: steps, s =>
    s.withItem index (put v steps ((s.item? index).getD missing))

/-- A tree with named settings put into it one after another. -/
def putAll (s : Setting) (named : List (String × Setting)) : Setting :=
  named.foldl (fun s e => put e.2 (SettingStep.ofName e.1) s) s

end Setting

end TradingLoad
