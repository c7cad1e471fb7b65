namespace TradingLoad

/-- A number of 64 bits with a binary point, as an exact value. -/
inductive Double where
  | finite (negative : Bool) (mantissa : Nat) (exponent : Int)
  | infinite (negative : Bool)
  | nan
  deriving DecidableEq, Repr

namespace Double

/-- The least exponent, and the greatest one. -/
def leastExponent : Int := -1074

def greatestExponent : Int := 971

def mantissaBits : Nat := 53

/-- A quotient rounded to the nearest number, a half to the even one. -/
def roundDiv (num den : Nat) : Nat :=
  let q := num / den
  let r := num % den
  if 2 * r < den then q
  else if den < 2 * r then q + 1
  else q + q % 2

/-- The quotient of two numbers times a power of two, rounded. -/
def roundScaled (num den : Nat) (shift : Int) : Nat :=
  if 0 ≤ shift then roundDiv (num * Nat.pow 2 shift.toNat) den
  else roundDiv num (den * Nat.pow 2 (-shift).toNat)

/-- The exponent `e` with `2 ^ e ≤ num / den < 2 ^ (e + 1)`. -/
def magnitude (num den : Nat) : Int :=
  let e : Int := (num.log2 : Int) - den.log2
  let below : Bool :=
    if 0 ≤ e then num < den * Nat.pow 2 e.toNat else num * Nat.pow 2 (-e).toNat < den
  if below then e - 1 else e

/-- The double nearest to a quotient of two numbers, the second of them not 0. -/
def ofQuotient (negative : Bool) (num den : Nat) : Double :=
  if num = 0 then finite negative 0 leastExponent
  else
    let exponent := max (magnitude num den - (mantissaBits - 1)) leastExponent
    let mantissa := roundScaled num den (-exponent)
    let (mantissa, exponent) :=
      if mantissa = Nat.pow 2 mantissaBits then (Nat.pow 2 (mantissaBits - 1), exponent + 1)
      else (mantissa, exponent)
    if greatestExponent < exponent then infinite negative else finite negative mantissa exponent

/-- More decimal places than a double can tell apart from zero, or tell from infinity. -/
def decimalReach : Int := 400

/-- The double nearest to `coefficient * 10 ^ exponent`. -/
def ofDecimal (negative : Bool) (coefficient : Nat) (exponent : Int) : Double :=
  let places : Int := (Nat.toDigits 10 coefficient).length
  if coefficient = 0 ∨ exponent + places < -decimalReach then finite negative 0 leastExponent
  else if decimalReach < exponent + places then infinite negative
  else if 0 ≤ exponent then ofQuotient negative (coefficient * Nat.pow 10 exponent.toNat) 1
  else ofQuotient negative coefficient (Nat.pow 10 (-exponent).toNat)

/-- A magnitude rounded to a whole number, a half away from zero. -/
def wholeMagnitude (mantissa : Nat) (exponent : Int) : Nat :=
  if 0 ≤ exponent then mantissa * Nat.pow 2 exponent.toNat
  else (2 * mantissa + Nat.pow 2 (-exponent).toNat) / (2 * Nat.pow 2 (-exponent).toNat)

/-- The nearest whole number between two bounds; 0 for what is no number. -/
def roundBetween (low high : Int) : Double → Int
  | nan => 0
  | infinite negative => if negative then low else high
  | finite negative mantissa exponent =>
    let n : Int := wholeMagnitude mantissa exponent
    max low (min high (if negative then -n else n))

end Double

end TradingLoad
