namespace TradingLoad.Url.Punycode

def base : Nat := 36

/-- A digit: the letters stand for 0 to 25, the decimal digits for 26 to 35. -/
def digitChar (d : Nat) : Char :=
  if d < 26 then Char.ofNat ('a'.toNat + d) else Char.ofNat ('0'.toNat + (d - 26))

def digitValue? (c : Char) : Option Nat :=
  if 'a' ≤ c ∧ c ≤ 'z' then some (c.toNat - 'a'.toNat)
  else if 'A' ≤ c ∧ c ≤ 'Z' then some (c.toNat - 'A'.toNat)
  else if c.isDigit then some (c.toNat - '0'.toNat + 26)
  else none

/-- A digit below its threshold is the last one of its number. -/
def threshold (position bias : Nat) : Nat :=
  if position ≤ bias then 1 else min 26 (position - bias)

theorem threshold_pos (position bias : Nat) : 0 < threshold position bias := by
  unfold threshold; split <;> omega

theorem threshold_le (position bias : Nat) : threshold position bias ≤ 26 := by
  unfold threshold; split <;> omega

/-- How many times a distance has to be divided to become small, times the base, and what is left
of it. -/
def shrink (delta position : Nat) : Nat × Nat :=
  if 455 < delta then shrink (delta / 35) (position + base) else (delta, position)
termination_by delta
decreasing_by exact Nat.div_lt_self (by omega) (by decide)

/-- The bias after a distance, of an insertion that makes the text so long. -/
def adapt (delta length : Nat) (first : Bool) : Nat :=
  let delta := if first then delta / 700 else delta / 2
  let (delta, position) := shrink (delta + delta / length) 0
  position + base * delta / (delta + 38)

/-- The digits of a number. -/
def writeNumber (bias position n : Nat) : List Char :=
  let t := threshold position bias
  if n < t then [digitChar n]
  else
    digitChar (t + (n - t) % (base - t)) ::
      writeNumber bias (position + base) ((n - t) / (base - t))
termination_by n
decreasing_by
  have := threshold_pos position bias
  have := Nat.div_le_self (n - threshold position bias) (base - threshold position bias)
  omega

/-- A writer between two insertions: what it has written, the distance so far, the bias, and how
many characters it has handled. -/
structure Progress where
  written : List Char
  delta : Nat
  bias : Nat
  handled : Nat

/-- Passes one character of the text while characters with the code point `point` are inserted. -/
def Progress.pass (basics point : Nat) (p : Progress) (c : Char) : Progress :=
  if c.toNat < point then { p with delta := p.delta + 1 }
  else if c.toNat = point then
    { written := p.written ++ writeNumber p.bias base p.delta
      delta := 0
      bias := adapt p.delta (p.handled + 1) (p.handled = basics)
      handled := p.handled + 1 }
  else p

/-- Inserts the characters with the given code points, which ascend from `point`. -/
def insertAll (text : List Char) (basics : Nat) : Nat → List Nat → Progress → Progress
  | _, [], p => p
  | point, next :: rest, p =>
    let p := { p with delta := p.delta + (next - point) * (p.handled + 1) }
    let p := text.foldl (Progress.pass basics next) p
    insertAll text basics (next + 1) rest { p with delta := p.delta + 1 }

def isBasic (c : Char) : Bool := c.toNat < 128

/-- A label in ASCII, without the mark that says that it is encoded. -/
def encode (text : List Char) : List Char :=
  let basics := text.filter isBasic
  let points := ((text.filter fun c => !isBasic c).map Char.toNat).mergeSort.eraseDups
  let start : Progress := ⟨[], 0, 72, basics.length⟩
  basics ++ (if basics = [] then [] else ['-']) ++
    (insertAll text basics.length 128 points start).written

/-- Adds a number to `sum`: its digits count times `weight`. -/
def readNumber (bias : Nat) : Nat → Nat → Nat → List Char → Option (Nat × List Char)
  | _, _, _, [] => none
  | position, weight, sum, c :: r => do
    let d ← digitValue? c
    let t := threshold position bias
    if d < t then some (sum + d * weight, r)
    else readNumber bias (position + base) (weight * (base - t)) (sum + d * weight) r

/-- Carries out at most so many insertions. -/
def readInsertions : Nat → Nat → Nat → Nat → List Char → List Char → Option (List Char)
  | _, _, _, _, text, [] => some text
  | 0, _, _, _, _, _ => none
  | limit + 1, bias, point, place, text, cs => do
    let (sum, r) ← readNumber bias base 1 place cs
    let length := text.length + 1
    let point := point + sum / length
    let here := sum % length
    if point.isValidChar then
      readInsertions limit (adapt (sum - place) length (place = 0)) point (here + 1)
        (text.insertIdx here (Char.ofNat point)) r
    else none

/-- The texts before and after the last hyphen; without one, all is after it. -/
def splitLastHyphen (cs : List Char) : List Char × List Char :=
  let after := (cs.reverse.takeWhile (· ≠ '-')).reverse
  ((cs.take (cs.length - after.length)).dropLast, after)

/-- The label that an encoded one stands for. -/
def decode? (cs : List Char) : Option (List Char) :=
  let (basics, insertions) := splitLastHyphen cs
  if basics.all isBasic then readInsertions insertions.length 72 128 0 basics insertions else none

end TradingLoad.Url.Punycode
