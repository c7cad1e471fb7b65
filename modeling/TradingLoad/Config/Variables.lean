import TradingLoad.Config.Place

namespace TradingLoad

/-- The variables of the environment. -/
abbrev Variables := List (String × String)

namespace Variables

open Setting (smallName)

/-- The mark of variables that hold settings, in small letters. -/
def mark : List Char := "bench__".toList

/-- Two underscores are a dot, from left to right. -/
def dotted : List Char → List Char
  | '_' :: '_' :: r => '.' :: dotted r
  | c :: r => c :: dotted r
  | [] => []

/-- The name of the setting that a variable holds. -/
def settingName? (name : String) : Option String :=
  let small := (smallName name).toList
  if mark.isPrefixOf small then some (String.ofList (dotted (small.drop mark.length))) else none

/-- The value in a text: a truth value, a number, or the text itself. -/
def readValue (text : String) : Setting :=
  match Scan.bool? text.toList with
  | some b => .bool b
  | none =>
    match Scan.int64? text.toList with
    | some a => .integer a
    | none =>
      match Scan.double? text.toList with
      | some d => .real d
      | none => .text text

/-- The settings that the environment holds, by name. -/
def settings (e : Variables) : List (String × Setting) :=
  e.filterMap fun v => (settingName? v.1).map fun name => (name, readValue v.2)

end Variables

end TradingLoad
