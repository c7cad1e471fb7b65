import TradingLoad.Url.Address
import TradingLoad.Url.Punycode

namespace TradingLoad.Url.DomainName

/-- Ranges of capital letters, with the distance to their small forms. -/
def capitalRanges : List (Nat × Nat × Nat) :=
  [(0x41, 0x5A, 32), (0xC0, 0xD6, 32), (0xD8, 0xDE, 32), (0x391, 0x3A1, 32), (0x3A3, 0x3AB, 32),
    (0x400, 0x40F, 80), (0x410, 0x42F, 32), (0x531, 0x556, 48)]

/-- Ranges in which capital letters and their small forms alternate, the capital ones first. -/
def pairedRanges : List (Nat × Nat) :=
  [(0x100, 0x12F), (0x14A, 0x177), (0x1DE, 0x1EF), (0x1F8, 0x21F), (0x222, 0x233), (0x370, 0x373),
    (0x3D8, 0x3EF), (0x460, 0x481), (0x48A, 0x4BF), (0x4D0, 0x52F), (0x1E00, 0x1E95),
    (0x1EA0, 0x1EFF)]

/-- Ranges of such pairs that start at an odd code point. -/
def oddPairedRanges : List (Nat × Nat) :=
  [(0x139, 0x148), (0x179, 0x17E), (0x1CD, 0x1DC), (0x4C1, 0x4CE)]

def inRange (n : Nat) (r : Nat × Nat) : Bool := r.1 ≤ n && n ≤ r.2

/-- The small form of a letter. -/
def small (c : Char) : Char :=
  let n := c.toNat
  match capitalRanges.find? fun r => r.1 ≤ n && n ≤ r.2.1 with
  | some r => Char.ofNat (n + r.2.2)
  | none =>
    if pairedRanges.any (inRange n) && n % 2 = 0 then Char.ofNat (n + 1)
    else if oddPairedRanges.any (inRange n) && n % 2 = 1 then Char.ofNat (n + 1)
    else if n = 0x178 then Char.ofNat 0xFF
    else c

/-- Characters that do not count: soft hyphens, joiners of words, selectors of variants. -/
def ignoredRanges : List (Nat × Nat) :=
  [(0xAD, 0xAD), (0x34F, 0x34F), (0x180B, 0x180D), (0x180F, 0x180F), (0x200B, 0x200B),
    (0x2060, 0x2060), (0x2064, 0x2064), (0xFE00, 0xFE0F), (0xFEFF, 0xFEFF), (0xE0100, 0xE01EF)]

def isIgnored (c : Char) : Bool := ignoredRanges.any (inRange c.toNat)

/-- The character that a domain name has for a character. -/
def fold (c : Char) : Char :=
  let n := c.toNat
  if n = 0x3002 ∨ n = 0xFF0E ∨ n = 0xFF61 then '.'
  else if 0xFF01 ≤ n ∧ n ≤ 0xFF5E then small (Char.ofNat (n - 0xFEE0))
  else small c

/-- Spaces, controls, marks of direction, characters for private use and the sign for unreadable
text. -/
def forbiddenRanges : List (Nat × Nat) :=
  [(0, 0x20), (0x7F, 0xA0), (0x1680, 0x1680), (0x2000, 0x200A), (0x200C, 0x200F),
    (0x2028, 0x202F), (0x205F, 0x2063), (0x2065, 0x206F), (0x3000, 0x3000), (0xE000, 0xF8FF),
    (0xFDD0, 0xFDEF), (0xFFF0, 0xFFFF), (0xE0000, 0xE00FF), (0xF0000, 0x10FFFF)]

def forbiddenMarks : List Char :=
  ['#', '%', '/', ':', '<', '>', '?', '@', '[', '\\', ']', '^', '|']

def isForbidden (c : Char) : Bool :=
  forbiddenMarks.contains c || forbiddenRanges.any (inRange c.toNat)

def isAscii (c : Char) : Bool := c.toNat < 128

/-- The mark of an encoded label. -/
def mark : List Char := ['x', 'n', '-', '-']

/-- An encoded label stands for a text outside of ASCII, in small letters, and is the way to write
it. -/
def isSoundEncoding (label : List Char) : Bool :=
  match Punycode.decode? label with
  | none => false
  | some text =>
    !text.all isAscii && text.all (fun c => !isForbidden c && !isIgnored c && fold c = c) &&
      Punycode.encode text = label

def labelToAscii? (label : List Char) : Option (List Char) :=
  if !label.all isAscii then some (mark ++ Punycode.encode label)
  else if label.take 4 = mark then
    if isSoundEncoding (label.drop 4) then some label else none
  else some label

/-- The form of a domain name in ASCII. -/
def toAscii? (cs : List Char) : Option (List Char) :=
  let folded := (cs.filter fun c => !isIgnored c).map fold
  if folded.any isForbidden then none
  else ((splitAt '.' folded).mapM labelToAscii?).map ['.'].intercalate

end TradingLoad.Url.DomainName
