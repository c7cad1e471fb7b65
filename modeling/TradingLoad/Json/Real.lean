import TradingLoad.Json.Value
import TradingLoad.Number.Double

namespace TradingLoad

namespace Double

/-- A finite value as a quotient. -/
def quotient (mantissa : Nat) (exponent : Int) : Nat × Nat :=
  if 0 ≤ exponent then (mantissa * Nat.pow 2 exponent.toNat, 1)
  else (mantissa, Nat.pow 2 (-exponent).toNat)

/-- The product of two positive finite values, or their quotient, rounded. -/
def scaled (divide : Bool) (m₁ : Nat) (e₁ : Int) (m₂ : Nat) (e₂ : Int) : Double :=
  let (n₁, d₁) := quotient m₁ e₁
  let (n₂, d₂) := quotient m₂ e₂
  if divide then ofQuotient false (n₁ * d₂) (d₁ * n₂) else ofQuotient false (n₁ * n₂) (d₁ * d₂)

def withSign (negative : Bool) : Double → Double
  | finite _ mantissa exponent => finite negative mantissa exponent
  | infinite _ => infinite negative
  | nan => nan

end Double

namespace JsonNumber

/-- The greatest power of ten that is a double. -/
def greatestPower : Nat := 308

/-- The digits that fit into 64 bits, and the exponent for them. -/
def keptDigits : Nat → Nat → Int → Nat × Int
  | 0, n, e => (n, e)
  | places + 1, n, e =>
    if n < 0x10000000000000000 then (n, e) else keptDigits places (n / 10) (e + 1)

/-- A double times or divided by ten to a power. -/
def scaleOnce (divide : Bool) (d : Double) (power : Nat) : Double :=
  match d, Double.ofQuotient false (Nat.pow 10 power) 1 with
  | .finite _ m₁ e₁, .finite _ m₂ e₂ => Double.scaled divide m₁ e₁ m₂ e₂
  | d, _ => d

/-- A double divided by ten to a power that may be beyond all doubles: then in steps. -/
def divideBy : Nat → Double → Nat → Double
  | 0, d, _ => d
  | steps + 1, d, power =>
    if power ≤ greatestPower then scaleOnce true d power
    else divideBy steps (scaleOnce true d greatestPower) (power - greatestPower)

/-- The double that a fraction is taken for; none where it is beyond all finite ones. -/
def fractionToDouble (coefficient : Nat) (exponent : Int) : Option Double :=
  let (n, e) := keptDigits (Nat.toDigits 10 coefficient).length coefficient exponent
  let start := Double.ofQuotient false n 1
  if n = 0 then some start
  else if e < 0 then
    let power := min e.natAbs (4 * greatestPower)
    some (divideBy (power / greatestPower + 1) start power)
  else if e.toNat ≤ greatestPower then
    match scaleOnce false start e.toNat with
    | .infinite _ => none
    | d => some d
  else none

/-- The double that a number is taken for. -/
def toDouble? : JsonNumber → Option Double
  | integer a => (fractionToDouble a.natAbs 0).map (Double.withSign (a < 0))
  | fraction negative coefficient exponent =>
    (fractionToDouble coefficient exponent).map (Double.withSign negative)

end JsonNumber

end TradingLoad
