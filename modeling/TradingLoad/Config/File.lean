import TradingLoad.Config.Setting
import TradingLoad.Json.Real
import TradingLoad.Json.Record
import TradingLoad.Toml.Document

namespace TradingLoad

namespace Setting

mutual

/-- A value of JSON as a setting; none if a text is no Unicode, if a number is beyond all numbers,
or if values are nested more than `depth` times. -/
def ofJson? (depth : Nat) : JsonValue → Option Setting
  | .null => some missing
  | .bool b => some (bool b)
  | .number (.integer a) =>
    if InInt64 a then some (integer a) else (JsonNumber.integer a).toDouble?.map real
  | .number n => n.toDouble?.map real
  | .text t => t.map text
  | .array vs =>
    match depth with
    | 0 => none
    | depth + 1 => (listOfJson? depth vs).map list
  | .object ms =>
    match depth with
    | 0 => none
    | depth + 1 => (entriesOfJson? depth ms).map table

def listOfJson? (depth : Nat) : List JsonValue → Option (List Setting)
  | [] => some []
  | v :: vs => do
    let s ← ofJson? depth v
    let ss ← listOfJson? depth vs
    return s :: ss

/-- Of members with one name, the last one counts. -/
def entriesOfJson? (depth : Nat) : List (JsonText × JsonValue) → Option (List (String × Setting))
  | [] => some []
  | (name, v) :: ms => do
    let name ← name
    let s ← ofJson? depth v
    let es ← entriesOfJson? depth ms
    return if es.any (·.1 = name) then es else (name, s) :: es

end

/-- How often values of JSON may be nested in a file. -/
def jsonNesting : Nat := 127

end Setting

inductive SettingsFormat where
  | toml
  | json
  deriving DecidableEq, Repr

namespace SettingsFormat

/-- The part of a name after its last dot; a dot at the start of a name does not count. -/
def extension? (name : List Char) : Option (List Char) :=
  let ending := (name.reverse.takeWhile (· ≠ '.')).reverse
  if ending.length + 1 < name.length then some ending else none

def ofFileName? (name : String) : Option SettingsFormat :=
  match (extension? name.toList).map String.ofList with
  | some "toml" => some toml
  | some "json" => some json
  | _ => none

/-- A text without a mark of the order of its octets. -/
def withoutMark (text : String) : String :=
  match text.toList with
  | '\ufeff' :: r => String.ofList r
  | _ => text

/-- The settings in a text, which have to be a table. -/
def read? (format : SettingsFormat) (text : String) : Option (List (String × Setting)) :=
  let text := withoutMark text
  let found :=
    match format with
    | toml => Toml.parse? text
    | json => (JsonValue.parse? text).bind (Setting.ofJson? Setting.jsonNesting)
  match found with
  | some (.table entries) => some entries
  | _ => none

end SettingsFormat

/-- A file with its name and its content. -/
structure TextFile where
  name : String
  content : String
  deriving DecidableEq, Repr

/-- The files of a folder and of the folders in it, by their paths. -/
abbrev Folder := List (String × String)

namespace Folder

/-- The pieces of a path between slashes. -/
def pieces (path : List Char) : List (List Char) :=
  path.foldr (fun c ps =>
    match c, ps with
    | '/', ps => [] :: ps
    | c, p :: ps => (c :: p) :: ps
    | c, [] => [[c]]) [[]]

/-- The last piece of a path, after all slashes. -/
def fileName (path : String) : String := String.ofList ((pieces path.toList).getLast?.getD [])

/-- Follows the pieces of a path from a place in the folder; all on the way have to be there. -/
def resolve (f : Folder) : List (List Char) → List (List Char) → Option (List (List Char))
  | here, [] => some here
  | here, piece :: rest =>
    if piece = [] ∨ piece = ['.'] then resolve f here rest
    else if piece = ['.', '.'] then
      if here = [] ∨ !isFolder f here then none else resolve f here.dropLast rest
    else resolve f (here ++ [piece]) rest
where
  /-- Some file is inside of the place. -/
  isFolder (f : Folder) (here : List (List Char)) : Bool :=
    f.any fun e => here.isPrefixOf (pieces e.1.toList) && here.length < (pieces e.1.toList).length

/-- The file at a path relative to the folder. -/
def file? (f : Folder) (path : String) : Option TextFile := do
  let ps := pieces path.toList
  if path.toList.head? = some '/' ∨ ps.getLast? = some [] ∨ ps.getLast? = some ['.'] then none
  else
    let here ← resolve f [] ps
    let e ← f.find? fun e => pieces e.1.toList = here
    some ⟨fileName path, e.2⟩

end Folder

end TradingLoad
