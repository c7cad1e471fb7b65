import TradingLoad.Config.Variables
import TradingLoad.Text.Blank

namespace TradingLoad.EnvFile

open Text

/-- Where a reader stands in a line. Quotes and a backslash at its end carry it on to the next one,
and so does a blank at the end of the file. -/
inductive LinePlace where
  | plain
  | blank
  | escape
  | strong
  | strongEscape
  | weak
  | weakEscape
  deriving DecidableEq

/-- The place after a character; none where a comment starts. -/
def LinePlace.next? (place : LinePlace) (c : Char) : Option LinePlace :=
  match place with
  | blank => if c = '#' then none else some (opened c)
  | plain => if isBlank c ∧ c ≠ '\n' ∧ c ≠ '\r' then some blank else some (opened c)
  | escape => some plain
  | strong => some (if c = '\\' then strongEscape else if c = '\'' then plain else strong)
  | strongEscape => some strong
  | weak => some (if c = '\\' then weakEscape else if c = '"' then plain else weak)
  | weakEscape => some weak
where
  opened (c : Char) : LinePlace :=
    if c = '\\' then escape else if c = '"' then weak else if c = '\'' then strong else plain

/-- The text before a comment, and the place after it; none where there is a comment. -/
def scanLine (place : LinePlace) : List Char → List Char × Option LinePlace
  | [] => ([], some place)
  | c :: r =>
    match place.next? c with
    | none => ([], none)
    | some place =>
      let (text, last) := scanLine place r
      (c :: text, last)

/-- The lines of a text, each with its line break. -/
def splitLines (cs : List Char) : List (List Char) :=
  cs.foldr (fun c lines =>
    match lines with
    | [] => [[c]]
    | line :: rest => if c = '\n' then [c] :: lines else (c :: line) :: rest) []

def withoutBreak (cs : List Char) : List Char :=
  match cs.reverse with
  | '\n' :: '\r' :: r => r.reverse
  | '\n' :: r => r.reverse
  | _ => cs

/-- Lines joined where one carries on to the next; none where the text ends too early. -/
def joinLines (before : List Char) (place : LinePlace) :
    List (List Char) → List (Option (List Char))
  | [] => if place = .plain then [] else [none]
  | line :: rest =>
    let text := before ++ line
    if (skipBlanks text).head? = some '#' then some [] :: joinLines [] .plain rest
    else
      match scanLine place line with
      | (kept, none) => some (before ++ kept) :: joinLines [] .plain rest
      | (_, some .plain) => some (withoutBreak text) :: joinLines [] .plain rest
      | (_, some place) => joinLines text place rest

/-- Where a reader stands in a value, in weak quotes or not. -/
inductive ValuePlace where
  | plain (weak : Bool)
  | strong
  | escape (weak : Bool)
  /-- After a dollar sign, with the name of a variable so far. -/
  | name (weak : Bool) (letters : List Char)
  /-- The same in braces. -/
  | braced (weak : Bool) (letters : List Char)
  | ended
  | comment
  deriving DecidableEq

/-- Characters outside of ASCII that are no letters or digits. -/
def signRanges : List (Nat × Nat) :=
  [(0x80, 0xA9), (0xAB, 0xB1), (0xB4, 0xB4), (0xB6, 0xB8), (0xBB, 0xBB), (0xBF, 0xBF), (0xD7, 0xD7),
    (0xF7, 0xF7), (0x2C2, 0x2C5), (0x2D2, 0x2DF), (0x300, 0x344), (0x2000, 0x206F),
    (0x207A, 0x207E), (0x208A, 0x208E), (0x20A0, 0x20FF), (0x2190, 0x245F), (0x249C, 0x249C),
    (0x2500, 0x2775), (0x2794, 0x2BFF), (0x2E00, 0x2E2E), (0x2E30, 0x3004), (0x3008, 0x3020),
    (0x302A, 0x3030), (0x3036, 0x3037), (0x303D, 0x3040), (0x30A0, 0x30A0), (0x30FB, 0x30FB),
    (0xE000, 0xF8FF), (0xFE00, 0xFE6F), (0xFF01, 0xFF0F), (0xFF1A, 0xFF20), (0xFF3B, 0xFF40),
    (0xFF5B, 0xFF65), (0xFFE0, 0xFFFF), (0x1F000, 0x1F0FF), (0x1F10D, 0x1F12F),
    (0x1F1E6, 0x1FBEF), (0xE0000, 0x10FFFF)]

/-- The character is a letter or a digit of some script. -/
def isNameChar (c : Char) : Bool :=
  c.isAlphanum ||
    (128 ≤ c.toNat && !isBlank c && !signRanges.any fun r => r.1 ≤ c.toNat && c.toNat ≤ r.2)

/-- What a character after a backslash stands for. -/
def escaped? (c : Char) : Option Char :=
  if c = 'n' then some '\n'
  else if c = '\\' ∨ c = '\'' ∨ c = '"' ∨ c = '$' ∨ c = ' ' then some c
  else none

/-- The place after a character, and what it adds to the value; none where the value makes no
sense. -/
def ValuePlace.next? (valueOf : List Char → List Char) (place : ValuePlace) (c : Char) :
    Option (ValuePlace × List Char) :=
  match place with
  | ended =>
    if c = ' ' ∨ c = '\t' then some (ended, [])
    else if c = '#' then some (comment, [])
    else none
  | comment => some (comment, [])
  | escape weak => (escaped? c).map fun d => (plain weak, [d])
  | strong => if c = '\'' then some (plain false, []) else some (strong, [c])
  | name weak letters =>
    if isNameChar c then some (name weak (letters ++ [c]), [])
    else if c = '\x7b' ∧ letters = [] then some (braced weak [], [])
    else if c = '$' then some (name weak [], valueOf letters)
    else some (plain weak, valueOf letters ++ [c])
  | braced weak letters =>
    if c = '\x7d' then some (plain weak, valueOf letters)
    else some (braced weak (letters ++ [c]), [])
  | plain weak =>
    if c = '$' then some (name weak [], [])
    else if c = '"' then some (plain !weak, [])
    else if c = '\\' then some (escape weak, [])
    else if weak then some (plain true, [c])
    else if c = '\'' then some (strong, [])
    else if c = ' ' ∨ c = '\t' then some (ended, [])
    else some (plain false, [c])

/-- A value from some place on. Quotes and braces have to be closed. -/
def readValue? (valueOf : List Char → List Char) (place : ValuePlace) :
    List Char → Option (List Char)
  | [] =>
    match place with
    | .plain false | .escape false | .ended | .comment => some []
    | .name false letters => some (valueOf letters)
    | _ => none
  | c :: r => do
    let (place, text) ← place.next? valueOf c
    return text ++ (← readValue? valueOf place r)

/-- The name of a variable at the start of a text. -/
def name? (cs : List Char) : Option (List Char × List Char) :=
  match cs with
  | c :: _ =>
    if c.isAlpha ∨ c = '_' then
      let isInside := fun c : Char => c.isAlphanum || c = '_' || c = '.'
      some (cs.takeWhile isInside, cs.dropWhile isInside)
    else none
  | [] => none

/-- The name before the sign of an assignment, and the text after it. A word in front of the name
may say that the variable is exported. -/
def assigned? (cs : List Char) : Option (List Char × List Char) := do
  let (name, r) ← name? cs
  match afterChar '=' (skipBlanks r) with
  | some r => return (name, skipBlanks r)
  | none =>
    if name = "export".toList then do
      let (name, r) ← name? (skipBlanks r)
      let r ← afterChar '=' (skipBlanks r)
      return (name, skipBlanks r)
    else none

/-- Nothing is left but a comment. -/
def isEnd (cs : List Char) : Bool := cs.head?.all (· = '#')

/-- The environment while a file is read, with the values that the file gives to variables. -/
structure State where
  environment : Variables
  given : List (String × String)

/-- The value of a variable: the one in the environment, else the last one that the file gives. -/
def State.valueOf (s : State) (name : List Char) : List Char :=
  let name := String.ofList name
  ((s.environment.lookup name).getD ((s.given.lookup name).getD "")).toList

def State.assign (s : State) (name : List Char) (value : List Char) : State :=
  let name := String.ofList name
  let value := String.ofList value
  { environment :=
      if (s.environment.lookup name).isSome then s.environment else s.environment ++ [(name, value)]
    given := (name, value) :: s.given }

/-- One line; none if it makes no sense. -/
def State.read? (s : State) (line : List Char) : Option State := do
  let text := trimBlanks line
  if isEnd text then return s
  else
    let (name, r) ← assigned? text
    if isEnd r then return s.assign name []
    else return s.assign name (← readValue? s.valueOf (.plain false) r)

/-- The state before the first line that makes no sense. -/
def State.readAll (s : State) : List (Option (List Char)) → State
  | some line :: lines =>
    match s.read? line with
    | some s => s.readAll lines
    | none => s
  | _ => s

end TradingLoad.EnvFile

namespace TradingLoad.Variables

/-- The environment with the variables that a file sets. -/
def withFile (e : Variables) (content : String) : Variables :=
  let cs := match content.toList with
    | '\ufeff' :: r => r
    | r => r
  let lines := EnvFile.joinLines [] .plain (EnvFile.splitLines cs)
  (EnvFile.State.readAll ⟨e, []⟩ lines).environment

end TradingLoad.Variables
