import TradingLoad.Json.Value

namespace TradingLoad

open Text

inductive JsonToken where
  | openBrace
  | closeBrace
  | openBracket
  | closeBracket
  | colon
  | comma
  | null
  | bool (value : Bool)
  | number (value : JsonNumber)
  | text (value : JsonText)
  deriving DecidableEq

namespace JsonToken

/-- White space of JSON: blank, tab, line feed and carriage return. -/
def isSpace (c : Char) : Bool := c = ' ' || c = '\t' || c = '\n' || c = '\r'

/-- A part of a string: a character that stands for itself, or a code unit named by an escape. -/
inductive Piece where
  | char (c : Char)
  | unit (value : Nat)
  deriving DecidableEq

/-- The value of a hexadecimal digit. -/
def hexValue? (c : Char) : Option Nat :=
  if c.isDigit then some (c.toNat - '0'.toNat)
  else if 'a' ≤ c ∧ c ≤ 'f' then some (c.toNat - 'a'.toNat + 10)
  else if 'A' ≤ c ∧ c ≤ 'F' then some (c.toNat - 'A'.toNat + 10)
  else none

def hexUnit? (a b c d : Char) : Option Nat := do
  return (← hexValue? a) * 4096 + (← hexValue? b) * 256 + (← hexValue? c) * 16 + (← hexValue? d)

/-- The character that a one-letter escape stands for. -/
def escaped? : Char → Option Char
  | '"' => some '"'
  | '\\' => some '\\'
  | '/' => some '/'
  | 'b' => some '\x08'
  | 'f' => some '\x0c'
  | 'n' => some '\n'
  | 'r' => some '\r'
  | 't' => some '\t'
  | _ => none

/-- The parts of a string up to its closing quote, and what follows the quote. -/
def pieces : List Char → Option (List Piece × List Char)
  | [] => none
  | '"' :: rest => some ([], rest)
  | '\\' :: 'u' :: a :: b :: c :: d :: rest => do
    let value ← hexUnit? a b c d
    let (ps, rest) ← pieces rest
    return (.unit value :: ps, rest)
  | '\\' :: e :: rest => do
    let c ← escaped? e
    let (ps, rest) ← pieces rest
    return (.char c :: ps, rest)
  | c :: rest =>
    if c.toNat < 32 ∨ c = '\\' then none
    else do
      let (ps, rest) ← pieces rest
      return (.char c :: ps, rest)

def isHighSurrogate (u : Nat) : Bool := 0xD800 ≤ u && u < 0xDC00

def isLowSurrogate (u : Nat) : Bool := 0xDC00 ≤ u && u < 0xE000

/-- The characters that the parts name: two halves of a surrogate pair make one, half a pair none.
-/
def assemble : List Piece → Option (List Char)
  | [] => some []
  | .char c :: ps => (assemble ps).map (c :: ·)
  | .unit u :: .unit v :: ps =>
    if isHighSurrogate u then
      if isLowSurrogate v then
        (assemble ps).map (Char.ofNat (0x10000 + (u - 0xD800) * 0x400 + (v - 0xDC00)) :: ·)
      else none
    else if isLowSurrogate u then none
    else (assemble (.unit v :: ps)).map (Char.ofNat u :: ·)
  | .unit u :: ps =>
    if isHighSurrogate u || isLowSurrogate u then none
    else (assemble ps).map (Char.ofNat u :: ·)

/-- Digits without a zero in front. -/
def wholePart (cs : List Char) : Option (List Char × List Char) :=
  match spanDigits cs with
  | ([], _) => none
  | ('0' :: _ :: _, _) => none
  | (ds, rest) => some (ds, rest)

/-- The digits after a point; no digits where there is no point. -/
def fractionPart : List Char → Option (List Char × List Char)
  | '.' :: cs =>
    match spanDigits cs with
    | ([], _) => none
    | (ds, rest) => some (ds, rest)
  | cs => some ([], cs)

/-- A signed number after the letter `e`, if there is such a letter. -/
def exponentPart : List Char → Option (Option Int × List Char)
  | c :: cs =>
    if c = 'e' ∨ c = 'E' then
      let (negative, cs) :=
        match cs with
        | '-' :: r => (true, r)
        | '+' :: r => (false, r)
        | r => (false, r)
      match spanDigits cs with
      | ([], _) => none
      | (ds, rest) =>
        let n : Int := digitsValue ds
        some (some (if negative then -n else n), rest)
    else some (none, c :: cs)
  | [] => some (none, [])

def numberBody (negative : Bool) (cs : List Char) : Option (JsonNumber × List Char) := do
  let (whole, cs) ← wholePart cs
  let (fraction, cs) ← fractionPart cs
  let (exponent, cs) ← exponentPart cs
  let coefficient := digitsValue (whole ++ fraction)
  if fraction = [] ∧ exponent = none ∧ ¬ (negative ∧ coefficient = 0) then
    return (.integer (if negative then -(coefficient : Int) else coefficient), cs)
  else
    return (.fraction negative coefficient (exponent.getD 0 - fraction.length), cs)

/-- One token at the start of a text that does not start with white space. -/
def one : List Char → Option (JsonToken × List Char)
  | [] => none
  | '{' :: r => some (openBrace, r)
  | '}' :: r => some (closeBrace, r)
  | '[' :: r => some (openBracket, r)
  | ']' :: r => some (closeBracket, r)
  | ':' :: r => some (colon, r)
  | ',' :: r => some (comma, r)
  | 'n' :: 'u' :: 'l' :: 'l' :: r => some (null, r)
  | 't' :: 'r' :: 'u' :: 'e' :: r => some (bool true, r)
  | 'f' :: 'a' :: 'l' :: 's' :: 'e' :: r => some (bool false, r)
  | '"' :: r => (pieces r).map fun p => (text ((assemble p.1).map String.ofList), p.2)
  | '-' :: r => (numberBody true r).map fun p => (number p.1, p.2)
  | c :: r => (numberBody false (c :: r)).map fun p => (number p.1, p.2)

/-- At most `limit` tokens, which must be all of the text. -/
def listFrom : Nat → List Char → Option (List JsonToken)
  | 0, _ => none
  | limit + 1, cs =>
    match cs.dropWhile isSpace with
    | [] => some []
    | c :: r => do
      let (token, rest) ← one (c :: r)
      return token :: (← listFrom limit rest)

/-- The tokens of a text: there are no more of them than characters. -/
def list (cs : List Char) : Option (List JsonToken) := listFrom (cs.length + 1) cs

end JsonToken

end TradingLoad
