import TradingLoad.Json.Token
import TradingLoad.Text.Decimal

namespace TradingLoad.Url

open Text

/-- The pieces of a text between separators. -/
def splitAt (separator : Char) : List Char → List (List Char)
  | [] => [[]]
  | c :: r =>
    if c = separator then [] :: splitAt separator r
    else
      match splitAt separator r with
      | [] => [[c]]
      | piece :: pieces => (c :: piece) :: pieces

theorem splitAt_ne_nil (separator : Char) (cs : List Char) : splitAt separator cs ≠ [] := by
  cases cs with
  | nil => simp [splitAt]
  | cons c r =>
    rw [splitAt]
    split
    · simp
    · split <;> simp

/-- A text without separators is one piece. -/
theorem splitAt_eq_singleton {separator : Char} {cs : List Char} (h : separator ∉ cs) :
    splitAt separator cs = [cs] := by
  induction cs with
  | nil => rfl
  | cons c r ih =>
    have hc : c ≠ separator := fun e => h (e ▸ List.mem_cons_self)
    have hr : separator ∉ r := fun m => h (List.mem_cons_of_mem _ m)
    simp [splitAt, hc, ih hr]

/-- The value of a text that consists of digits below `base`. -/
def numberInBase (base : Nat) (cs : List Char) : Option Nat :=
  cs.foldlM (fun n c => do
    let d ← JsonToken.hexValue? c
    if d < base then some (base * n + d) else none) 0

namespace Ipv4

/-- A number in base 16 after `0x`, in base 8 after `0`, else in base 10. -/
def number : List Char → Option Nat
  | [] => none
  | ['0'] => some 0
  | '0' :: 'x' :: r => numberInBase 16 r
  | '0' :: 'X' :: r => numberInBase 16 r
  | '0' :: r => numberInBase 8 r
  | r => numberInBase 10 r

/-- The pieces of a host between its dots, without an empty one at the end. -/
def pieces (cs : List Char) : List (List Char) :=
  let ps := splitAt '.' cs
  if ps.getLast? = some [] ∧ 1 < ps.length then ps.dropLast else ps

/-- A host whose last piece is a number has to be an address. -/
def isMeant (cs : List Char) : Bool :=
  match (pieces cs).getLast? with
  | none => false
  | some p => (p ≠ [] && p.all Char.isDigit) || (number p).isSome

/-- The address with the given numbers, as a number of 32 bits. -/
def assemble (numbers : List Nat) : Option Nat :=
  match numbers.reverse with
  | [] => none
  | last :: firsts =>
    let places := 4 - firsts.length
    if firsts.length ≤ 3 ∧ last < Nat.pow 256 places ∧ firsts.all (· < 256) then
      some (firsts.reverse.foldl (fun n d => 256 * n + d) 0 * Nat.pow 256 places + last)
    else none

def parse? (cs : List Char) : Option Nat := do assemble (← (pieces cs).mapM number)

def render (address : Nat) : List Char :=
  digits (address / 0x1000000 % 256) ++ '.' :: digits (address / 0x10000 % 256) ++
    '.' :: digits (address / 256 % 256) ++ '.' :: digits (address % 256)

end Ipv4

namespace Ipv6

/-- A group of one to four hexadecimal digits. -/
def group (cs : List Char) : Option Nat :=
  if cs ≠ [] ∧ cs.length ≤ 4 then numberInBase 16 cs else none

/-- A number from 0 to 255 in base 10, without a zero in front. -/
def octet (cs : List Char) : Option Nat :=
  if cs.all Char.isDigit ∧ (cs.head? ≠ some '0' ∨ cs = ['0']) ∧ cs ≠ [] ∧ digitsValue cs < 256 then
    some (digitsValue cs)
  else none

/-- The last groups, which may be an address of version 4. -/
def lastGroups (cs : List Char) : Option (List Nat) :=
  if cs.contains '.' then do
    match ← (splitAt '.' cs).mapM octet with
    | [a, b, c, d] => return [256 * a + b, 256 * c + d]
    | _ => none
  else (group cs).map ([·])

/-- Groups with a colon between any two of them. -/
def groups : List (List Char) → Option (List Nat)
  | [] => some []
  | [cs] => lastGroups cs
  | cs :: css => do
    let g ← group cs
    let gs ← groups css
    return g :: gs

/-- The texts before and after the first two colons in a row. -/
def splitGap : List Char → Option (List Char × List Char)
  | ':' :: ':' :: r => some ([], r)
  | c :: r => (splitGap r).map fun p => (c :: p.1, p.2)
  | [] => none

/-- The groups in a text that may be empty. -/
def side (cs : List Char) : Option (List Nat) :=
  if cs = [] then some [] else groups (splitAt ':' cs)

def parse? (cs : List Char) : Option (List Nat) :=
  match splitGap cs with
  | none => do
    let gs ← side cs
    if gs.length = 8 then some gs else none
  | some (left, right) => do
    let before ← if left.contains '.' then none else side left
    let after ← side right
    if before.length + after.length ≤ 7 then
      some (before ++ List.replicate (8 - before.length - after.length) 0 ++ after)
    else none

/-- The length of the run of zeros at the start. -/
def zeroRun (gs : List Nat) : Nat := (gs.takeWhile (· = 0)).length

/-- The place and the length of the first longest run of zeros in the groups from a place on. -/
def longestRun (start : Nat) : List Nat → Nat × Nat
  | [] => (start, 0)
  | g :: gs =>
    let here := zeroRun (g :: gs)
    let (place, length) := longestRun (start + 1) gs
    if length ≤ here then (start, here) else (place, length)

def joined (gs : List Nat) : List Char :=
  [':'].intercalate (gs.map (Nat.toDigits 16))

/-- The first longest run of two zeros or more is left out. -/
def render (gs : List Nat) : List Char :=
  let (place, length) := longestRun 0 gs
  if length < 2 then joined gs
  else joined (gs.take place) ++ ':' :: ':' :: joined (gs.drop (place + length))

end Ipv6

end TradingLoad.Url
