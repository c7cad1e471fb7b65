import TradingLoad.Number.Double
import TradingLoad.Fault
import TradingLoad.Text.Decimal

namespace TradingLoad.Scan

open Text

/-- A sign, if there is one, and the text after it. -/
def sign : List Char → Bool × List Char
  | '-' :: r => (true, r)
  | '+' :: r => (false, r)
  | r => (false, r)

/-- Digits and nothing else. -/
def natural? (cs : List Char) : Option Nat :=
  if cs ≠ [] ∧ cs.all Char.isDigit then some (digitsValue cs) else none

/-- A signed 64-bit number. -/
def int64? (cs : List Char) : Option Int :=
  let (negative, r) := sign cs
  match natural? r with
  | none => none
  | some n =>
    let a : Int := if negative then -(n : Int) else n
    if InInt64 a then some a else none

/-- A number of so many bits, perhaps with a plus sign. -/
def word? (bits : Nat) (cs : List Char) : Option Nat :=
  let r := match cs with
    | '+' :: r => r
    | r => r
  match natural? r with
  | none => none
  | some n => if n < Nat.pow 2 bits then some n else none

def lowered (cs : List Char) : List Char := cs.map Char.toLower

def bool? (cs : List Char) : Option Bool :=
  if lowered cs = "true".toList then some true
  else if lowered cs = "false".toList then some false
  else none

/-- An exponent with its mark; no text is no exponent. -/
def exponent? : List Char → Option Int
  | [] => some 0
  | c :: r =>
    if c = 'e' ∨ c = 'E' then
      let (negative, r) := sign r
      (natural? r).map fun n => if negative then -(n : Int) else n
    else none

/-- A magnitude: digits with a point among them or at one end, and an exponent. -/
def magnitude? (negative : Bool) (cs : List Char) : Option Double :=
  let (whole, r) := spanDigits cs
  let (fraction, r) := match r with
    | '.' :: r => spanDigits r
    | r => ([], r)
  if whole = [] ∧ fraction = [] then none
  else (exponent? r).map fun e =>
    .ofDecimal negative (digitsValue (whole ++ fraction)) (e - fraction.length)

def double? (cs : List Char) : Option Double :=
  let (negative, r) := sign cs
  if lowered r = "inf".toList ∨ lowered r = "infinity".toList then some (.infinite negative)
  else if lowered r = "nan".toList then some .nan
  else magnitude? negative r

end TradingLoad.Scan
