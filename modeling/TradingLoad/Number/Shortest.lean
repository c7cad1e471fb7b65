import TradingLoad.Number.Double
import TradingLoad.Text.Decimal

namespace TradingLoad.Double

open Text

/-- A power with a negative exponent is a factor on the other side. -/
def upper (base : Nat) (e : Int) : Nat := base.pow e.toNat

def lower (base : Nat) (e : Int) : Nat := base.pow (-e).toNat

/-- The numbers that round to a double, in quarters of the unit of its mantissa. -/
structure Interval where
  low : Nat
  value : Nat
  high : Nat
  /-- The ends belong to it. -/
  closed : Bool

/-- Below a power of two the neighbours are twice as close. -/
def interval (mantissa : Nat) (exponent : Int) : Interval :=
  let atPower := mantissa = Nat.pow 2 (mantissaBits - 1) ∧ leastExponent < exponent
  { low := if atPower then 4 * mantissa - 1 else 4 * mantissa - 2
    value := 4 * mantissa
    high := 4 * mantissa + 2
    closed := mantissa % 2 = 0 }

/-- `c * 10 ^ place` lies in the interval whose unit is `2 ^ e`. -/
def Interval.contains (i : Interval) (e : Int) (c : Nat) (place : Int) : Bool :=
  let left := c * upper 10 place * lower 2 e
  let unit := upper 2 e * lower 10 place
  if i.closed then i.low * unit ≤ left && left ≤ i.high * unit
  else i.low * unit < left && left < i.high * unit

/-- Of the two neighbours of the value on the grid of `10 ^ place`, the nearer one that lies in the
interval. -/
def candidate (i : Interval) (e place : Int) : Option Nat :=
  let num := i.value * upper 2 e * lower 10 place
  let den := upper 10 place * lower 2 e
  let c := num / den
  let near := if 2 * (num % den) ≤ den then [c, c + 1] else [c + 1, c]
  near.find? fun c => i.contains e c place

/-- The first grid, from coarse to fine, that has a candidate. -/
def search (i : Interval) (e : Int) : Nat → Int → Nat × Int
  | 0, place => (0, place)
  | steps + 1, place =>
    match candidate i e place with
    | some c => (c, place)
    | none => search i e steps (place - 1)

/-- More decimal places than the number has before the point. -/
def topPlace (mantissa : Nat) (exponent : Int) : Int :=
  (exponent + mantissa.log2 + 1) * 30103 / 100000 + 2

/-- The fewest digits that tell a double from its neighbours, and the place of the last of them. -/
def shortest (mantissa : Nat) (exponent : Int) : Nat × Int :=
  search (interval mantissa exponent) (exponent - 2) 24 (topPlace mantissa exponent)

/-- `coefficient * 10 ^ place` without an exponent. -/
def positional (coefficient : Nat) (place : Int) : List Char :=
  let ds := digits coefficient
  let places := (-place).toNat
  if 0 ≤ place then ds ++ List.replicate place.toNat '0'
  else if places < ds.length then
    ds.take (ds.length - places) ++ '.' :: ds.drop (ds.length - places)
  else '0' :: '.' :: List.replicate (places - ds.length) '0' ++ ds

def toText : Double → List Char
  | nan => ['N', 'a', 'N']
  | infinite negative => (if negative then ['-'] else []) ++ ['i', 'n', 'f']
  | finite negative mantissa exponent =>
    let magnitude :=
      if mantissa = 0 then ['0']
      else
        let (c, place) := shortest mantissa exponent
        positional c place
    if negative then '-' :: magnitude else magnitude

def render (d : Double) : String := String.ofList d.toText

end TradingLoad.Double
