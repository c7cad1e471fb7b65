import TradingLoad.Json.Value

namespace TradingLoad.JsonValue

open Text

def hexDigit (n : Nat) : Char := Nat.digitChar n

/-- Quotes, backslashes and control characters are escaped, all else stands for itself. -/
def escapeChar (c : Char) : List Char :=
  if c = '"' then ['\\', '"']
  else if c = '\\' then ['\\', '\\']
  else if c = '\x08' then ['\\', 'b']
  else if c = '\x0c' then ['\\', 'f']
  else if c = '\n' then ['\\', 'n']
  else if c = '\r' then ['\\', 'r']
  else if c = '\t' then ['\\', 't']
  else if c.toNat < 32 then ['\\', 'u', '0', '0', hexDigit (c.toNat / 16), hexDigit (c.toNat % 16)]
  else [c]

/-- The written form of a string; one that names no text is written with a lone surrogate. -/
def writeText : JsonText → List Char
  | some s => '"' :: s.toList.flatMap escapeChar ++ ['"']
  | none => "\"\\ud800\"".toList

def writeNumber : JsonNumber → List Char
  | .integer a => signedDigits a
  | .fraction negative coefficient exponent =>
    (if negative then ['-'] else []) ++ digits coefficient ++ 'e' :: signedDigits exponent

mutual

def write : JsonValue → List Char
  | null => "null".toList
  | bool true => "true".toList
  | bool false => "false".toList
  | number n => writeNumber n
  | text t => writeText t
  | array items => '[' :: writeItems items
  | object members => '{' :: writeMembers members

/-- Items with commas between them, and the closing bracket. -/
def writeItems : List JsonValue → List Char
  | [] => [']']
  | [v] => write v ++ [']']
  | v :: w :: vs => write v ++ ',' :: writeItems (w :: vs)

/-- Members with commas between them, and the closing brace. -/
def writeMembers : List (JsonText × JsonValue) → List Char
  | [] => ['}']
  | [(name, v)] => writeText name ++ ':' :: write v ++ ['}']
  | (name, v) :: m :: ms => writeText name ++ ':' :: write v ++ ',' :: writeMembers (m :: ms)

end

def render (v : JsonValue) : String := String.ofList v.write

end TradingLoad.JsonValue
