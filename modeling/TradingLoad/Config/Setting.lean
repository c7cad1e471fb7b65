import TradingLoad.Config.Wire
import TradingLoad.Number.Scan
import TradingLoad.Number.Shortest

namespace TradingLoad

/-- A tree of settings, in which files and the environment of the program are brought together. -/
inductive Setting where
  | missing
  | bool (value : Bool)
  | integer (value : Int)
  | real (value : Double)
  | text (value : String)
  | list (items : List Setting)
  | table (entries : List (String × Setting))
  deriving Inhabited

namespace Setting

open Text

/-- The words for truth values where a number is wanted. -/
def switch? (s : String) : Option Bool :=
  match String.ofList (Scan.lowered s.toList) with
  | "true" | "on" | "yes" => some true
  | "false" | "off" | "no" => some false
  | _ => none

/-- A signed 64-bit number: truth values are 0 and 1, fractions are rounded, texts are read. -/
def int? : Setting → Option Int
  | integer a => some a
  | bool b => some (if b then 1 else 0)
  | real d => some (d.roundBetween (-0x8000000000000000) 0x7fffffffffffffff)
  | text s =>
    match switch? s with
    | some b => some (if b then 1 else 0)
    | none => Scan.int64? s.toList
  | _ => none

/-- A 64-bit number without a sign, by the same rules; a fraction below 0 is taken for 0. -/
def word64? : Setting → Option Nat
  | integer a => if 0 ≤ a then some a.toNat else none
  | bool b => some (if b then 1 else 0)
  | real d => some (d.roundBetween 0 0xffffffffffffffff).toNat
  | text s =>
    match switch? s with
    | some b => some (if b then 1 else 0)
    | none => Scan.word? 64 s.toList
  | _ => none

def word? (bits : Nat) (v : Setting) : Option Nat := do
  let n ← v.word64?
  if n < Nat.pow 2 bits then some n else none

/-- A text; any scalar can be written as one. -/
def string? : Setting → Option String
  | text s => some s
  | bool b => some (if b then "true" else "false")
  | integer a => some (signedDecimal a)
  | real d => some d.render
  | _ => none

def items? : Setting → Option (List Setting)
  | list items => some items
  | _ => none

/-- The fields of a table, or of a list by position. What is more than there are fields is passed
over. -/
def fields? (names : List String) : Setting → Option (Fields Setting)
  | table entries => some ⟨entries.filter fun e => names.contains e.1⟩
  | list items => some ⟨names.zip items⟩
  | _ => none

/-- Settings as a notation for records. -/
def dataNotation : DataNotation Setting where
  fields? := fields?
  int? := int?
  word? := word?
  string? := string?
  list? := items?

end Setting

end TradingLoad
