import TradingLoad.Text.Decimal

namespace TradingLoad

/-- A number as it is written: an integer, or a decimal fraction `coefficient * 10 ^ exponent`. A
number with a point or an exponent is a fraction even where its value is whole, and so is minus
zero. -/
inductive JsonNumber where
  | integer (value : Int)
  | fraction (negative : Bool) (coefficient : Nat) (exponent : Int)
  deriving DecidableEq, Repr

/-- The text that a JSON string names, if it names one. -/
abbrev JsonText := Option String

/-- A value of JSON. Objects keep their members in order, also those that come again. -/
inductive JsonValue where
  | null
  | bool (value : Bool)
  | number (value : JsonNumber)
  | text (value : JsonText)
  | array (items : List JsonValue)
  | object (members : List (JsonText × JsonValue))
  deriving Inhabited

namespace JsonValue

def ofInt (a : Int) : JsonValue := number (.integer a)

def ofNat (n : Nat) : JsonValue := ofInt n

def ofString (s : String) : JsonValue := text (some s)

/-- An object with members of the given names. -/
def ofFields (fields : List (String × JsonValue)) : JsonValue :=
  object (fields.map fun f => (some f.1, f.2))

/-- A value that may be missing: `null` stands for none. -/
def ofOption {α : Type} (encode : α → JsonValue) : Option α → JsonValue
  | none => null
  | some a => encode a

def ofList {α : Type} (encode : α → JsonValue) (items : List α) : JsonValue :=
  array (items.map encode)

end JsonValue

end TradingLoad
