import TradingLoad.Text.Blank
import TradingLoad.Text.Decimal
import TradingLoad.Time.Timestamp

namespace TradingLoad.Timestamp

open Text

/-- A field of at most `width` digits, blanks before it. -/
def readField (width : Nat) (cs : List Char) : Option (Nat × List Char) :=
  takeNumber width (skipBlanks cs)

/-- A year: four digits at most, or any number of them after a sign. -/
def readYear (cs : List Char) : Option (Int × List Char) :=
  match skipBlanks cs with
  | '-' :: r => (takeLongNumber r).map fun p => (-(p.1 : Int), p.2)
  | '+' :: r => (takeLongNumber r).map fun p => ((p.1 : Int), p.2)
  | r => (takeNumber 4 r).map fun p => ((p.1 : Int), p.2)

/-- A separator, blanks before it. -/
def readMark (c : Char) (cs : List Char) : Option (List Char) := afterChar c (skipBlanks cs)

def readDate (cs : List Char) : Option (Date × List Char) := do
  let (year, cs) ← readYear cs
  let cs ← readMark '-' cs
  let (month, cs) ← readField 2 cs
  let cs ← readMark '-' cs
  let (day, cs) ← readField 2 cs
  return (⟨year, month, day⟩, cs)

/-- The fraction of a second, in nanoseconds: digits after the ninth are passed over. -/
def readFraction : List Char → Option (Nat × List Char)
  | '.' :: cs =>
    let (ds, rest) := spanDigits cs
    let kept := ds.take 9
    if ds = [] then none
    else some (digitsValue kept * Nat.pow 10 (9 - kept.length), rest)
  | cs => some (0, cs)

/-- The offset of a clock from UTC, in minutes. -/
def readOffset (cs : List Char) : Option (Int × List Char) :=
  match cs with
  | 'Z' :: r | 'z' :: r => some (0, r)
  | [] => none
  | sign :: r =>
    match r with
    | h₁ :: h₂ :: r =>
      match r.dropWhile (fun c => c = ':' || isBlank c) with
      | m₁ :: m₂ :: r =>
        let minutes := digitsValue [h₁, h₂] * 60 + digitsValue [m₁, m₂]
        if ([h₁, h₂, m₁, m₂].all Char.isDigit && digitsValue [m₁, m₂] < 60) = false then none
        else if sign = '+' then some (minutes, r)
        else if sign = '-' || sign = '\u2212' then some (-(minutes : Int), r)
        else none
      | _ => none
    | _ => none

/-- The three letters `UTC` in any case, or an offset. -/
def readZone (cs : List Char) : Option (Int × List Char) :=
  match skipBlanks cs with
  | u :: t :: c :: r =>
    if [u.toUpper, t.toUpper, c.toUpper] = ['U', 'T', 'C'] then some (0, r)
    else readOffset (u :: t :: c :: r)
  | r => readOffset r

/-- A moment from its text; the second 60 is a leap second. -/
def ofText (cs : List Char) : Option Timestamp := do
  let (date, cs) ← readDate cs
  let cs ←
    match cs with
    | 'T' :: r | 't' :: r | ' ' :: r => some r
    | _ => none
  let (hour, cs) ← readField 2 cs
  let cs ← readMark ':' cs
  let (minute, cs) ← readField 2 cs
  let cs ← readMark ':' cs
  let (second, cs) ← readField 2 cs
  let (nanos, cs) ← readFraction cs
  let (offset, cs) ← readZone cs
  if skipBlanks cs ≠ [] ∨ 24 ≤ hour ∨ 60 ≤ minute ∨ 60 < second ∨
      (minutesPerDay : Int) ≤ offset.natAbs ∨ ¬ date.Valid then
    none
  else
    let t : Timestamp :=
      if second = 60 then ⟨date, hour * 60 + minute, 59, nanos + 1000000000⟩
      else ⟨date, hour * 60 + minute, second, nanos⟩
    let utc := t.toUtc offset
    if utc.date.Valid then some utc else none

/-- Years outside of 0 to 9999 carry a sign, which counts as one of their five characters. -/
def yearText (year : Int) : List Char :=
  if 0 ≤ year ∧ year ≤ 9999 then paddedDigits 4 year.toNat
  else if year < 0 then '-' :: paddedDigits 4 year.natAbs
  else '+' :: paddedDigits 4 year.natAbs

/-- The places after the point: none, three, six or nine, the fewest that lose nothing. -/
def fractionText (nanos : Nat) : List Char :=
  if nanos = 0 then []
  else if nanos % 1000000 = 0 then '.' :: paddedDigits 3 (nanos / 1000000)
  else if nanos % 1000 = 0 then '.' :: paddedDigits 6 (nanos / 1000)
  else '.' :: paddedDigits 9 nanos

def toText (t : Timestamp) : List Char :=
  let leap := 1000000000 ≤ t.nanosecond
  let second := if leap then t.second + 1 else t.second
  let nanos := if leap then t.nanosecond - 1000000000 else t.nanosecond
  yearText t.date.year ++ '-' :: paddedDigits 2 t.date.month ++ '-' :: paddedDigits 2 t.date.day ++
    'T' :: paddedDigits 2 t.hour ++ ':' :: paddedDigits 2 t.minute ++
    ':' :: paddedDigits 2 second ++ fractionText nanos ++ ['Z']

def render (t : Timestamp) : String := String.ofList t.toText

def parse? (s : String) : Option Timestamp := ofText s.toList

end TradingLoad.Timestamp
