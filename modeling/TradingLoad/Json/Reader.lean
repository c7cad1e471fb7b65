import TradingLoad.Json.Token

namespace TradingLoad.JsonValue

open JsonToken (openBrace closeBrace openBracket closeBracket colon comma)

mutual

/-- A value at the start of a list of tokens; `depth` bounds how often values are nested or
follow one another. -/
def readFrom : Nat → List JsonToken → Option (JsonValue × List JsonToken)
  | 0, _ => none
  | depth + 1, tokens =>
    match tokens with
    | .null :: r => some (null, r)
    | .bool b :: r => some (bool b, r)
    | .number n :: r => some (number n, r)
    | .text t :: r => some (text t, r)
    | openBracket :: closeBracket :: r => some (array [], r)
    | openBracket :: r => (readItems depth r).map fun p => (array p.1, p.2)
    | openBrace :: closeBrace :: r => some (object [], r)
    | openBrace :: r => (readMembers depth r).map fun p => (object p.1, p.2)
    | _ => none

/-- The items of an array, one at least, up to the closing bracket. -/
def readItems : Nat → List JsonToken → Option (List JsonValue × List JsonToken)
  | 0, _ => none
  | depth + 1, tokens => do
    let (item, rest) ← readFrom depth tokens
    match rest with
    | closeBracket :: r => return ([item], r)
    | comma :: r => do
      let (items, r) ← readItems depth r
      return (item :: items, r)
    | _ => none

/-- The members of an object, one at least, up to the closing brace. -/
def readMembers : Nat → List JsonToken → Option (List (JsonText × JsonValue) × List JsonToken)
  | 0, _ => none
  | depth + 1, tokens =>
    match tokens with
    | .text name :: colon :: r => do
      let (value, rest) ← readFrom depth r
      match rest with
      | closeBrace :: r => return ([(name, value)], r)
      | comma :: r => do
        let (members, r) ← readMembers depth r
        return ((name, value) :: members, r)
      | _ => none
    | _ => none

end

/-- The value that a list of tokens spells. -/
def ofTokens? (tokens : List JsonToken) : Option JsonValue :=
  match readFrom (2 * tokens.length + 1) tokens with
  | some (value, []) => some value
  | _ => none

/-- The value that a text spells, with nothing but white space around it. -/
def parse? (s : String) : Option JsonValue := (JsonToken.list s.toList).bind ofTokens?

end TradingLoad.JsonValue
