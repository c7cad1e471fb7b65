import TradingLoad.Json.Token
import TradingLoad.Number.Scan
import TradingLoad.Time.Timestamp

namespace TradingLoad.Toml

open Text

/-- A reader takes a value from the start of a text and returns the text after it. -/
abbrev Reader (α : Type) := List Char → Option (α × List Char)

def isInlineBlank (c : Char) : Bool := c = ' ' || c = '\t'

def skipInline (cs : List Char) : List Char := cs.dropWhile isInlineBlank

/-- The text after a line break. -/
def afterBreak : List Char → Option (List Char)
  | '\n' :: r => some r
  | '\r' :: '\n' :: r => some r
  | _ => none

/-- Characters that may stand in a text as they are: all but the control characters, of which only
the tab may. -/
def isPlain (c : Char) : Bool := c = '\t' || (32 ≤ c.toNat && c.toNat ≠ 127)

/-- A comment up to the end of its line; no comment is one too. -/
def skipComment : List Char → List Char
  | '#' :: r => r.dropWhile isPlain
  | r => r

/-- Blanks, line breaks and comments; so many of them at most. -/
def skipGapFor : Nat → List Char → List Char
  | 0, cs => cs
  | n + 1, cs =>
    match skipInline cs with
    | '#' :: r => skipGapFor n (r.dropWhile isPlain)
    | r =>
      match afterBreak r with
      | some r => skipGapFor n r
      | none => r

def skipGap (cs : List Char) : List Char := skipGapFor (cs.length + 1) cs

/-- The value of a run of hexadecimal digits. -/
def hexValue (cs : List Char) : Option Nat :=
  cs.foldlM (fun n c => (JsonToken.hexValue? c).map (16 * n + ·)) 0

/-- The character with a code point given in so many hexadecimal digits. -/
def codePoint (width : Nat) (cs : List Char) : Option (Char × List Char) := do
  let ds := cs.take width
  let n ← if ds.length = width then hexValue ds else none
  if n.isValidChar then some (Char.ofNat n, cs.drop width) else none

/-- An escape, after its backslash. -/
def escaped : Reader Char
  | 'b' :: r => some ('\x08', r)
  | 't' :: r => some ('\t', r)
  | 'n' :: r => some ('\n', r)
  | 'f' :: r => some ('\x0c', r)
  | 'r' :: r => some ('\r', r)
  | '"' :: r => some ('"', r)
  | '\\' :: r => some ('\\', r)
  | 'u' :: r => codePoint 4 r
  | 'U' :: r => codePoint 8 r
  | _ => none

/-- A string on one line with escapes, after its opening quote. -/
def basicFor : Nat → Reader (List Char)
  | 0, _ => none
  | _ + 1, '"' :: r => some ([], r)
  | n + 1, '\\' :: r => do
    let (c, r) ← escaped r
    let (cs, r) ← basicFor n r
    return (c :: cs, r)
  | n + 1, c :: r =>
    if isPlain c then do
      let (cs, r) ← basicFor n r
      return (c :: cs, r)
    else none
  | _ + 1, [] => none

/-- A string on one line without escapes, after its opening quote. -/
def literal : Reader (List Char)
  | '\'' :: r => some ([], r)
  | c :: r =>
    if isPlain c then do
      let (cs, r) ← literal r
      return (c :: cs, r)
    else none
  | [] => none

/-- Blanks and line breaks; so many of them at most. -/
def skipBreaksFor : Nat → List Char → List Char
  | 0, cs => cs
  | n + 1, cs =>
    match afterBreak (skipInline cs) with
    | some r => skipBreaksFor n r
    | none => skipInline cs

/-- The quotes at the start of a text end a string over many lines if there are three to five of
them; the last three are its end. -/
def closing (quote : Char) (cs : List Char) : Option (Nat × List Char) :=
  let run := (cs.takeWhile (· = quote)).length
  if 3 ≤ run then some (run - 3, cs.drop run) else none

/-- A string over many lines, after its opening quotes. A backslash at the end of a line takes away
the blanks and line breaks after it. -/
def multiLineFor (quote : Char) (escapes : Bool) : Nat → Reader (List Char)
  | 0, _ => none
  | n + 1, cs =>
    match closing quote cs with
    | some (quotes, r) => if quotes ≤ 2 then some (List.replicate quotes quote, r) else none
    | none =>
      match afterBreak cs with
      | some r => do
        let (cs, r) ← multiLineFor quote escapes n r
        return ('\n' :: cs, r)
      | none =>
        match cs with
        | [] => none
        | c :: r =>
          if escapes && c = '\\' then
            match afterBreak (skipInline r) with
            | some r => multiLineFor quote escapes n (skipBreaksFor r.length r)
            | none => do
              let (c, r) ← escaped r
              let (cs, r) ← multiLineFor quote escapes n r
              return (c :: cs, r)
          else if isPlain c then do
            let (cs, r) ← multiLineFor quote escapes n r
            return (c :: cs, r)
          else none

/-- The first line break of a string over many lines does not count. -/
def multiLine (quote : Char) (escapes : Bool) (cs : List Char) : Option (List Char × List Char) :=
  multiLineFor quote escapes (cs.length + 1) ((afterBreak cs).getD cs)

/-- A string on one line, as keys have them. -/
def lineString : Reader (List Char)
  | '"' :: r => basicFor (r.length + 1) r
  | '\'' :: r => literal r
  | _ => none

def string : Reader (List Char)
  | '"' :: '"' :: '"' :: r => multiLine '"' true r
  | '\'' :: '\'' :: '\'' :: r => multiLine '\'' false r
  | r => lineString r

/-- Digits that may have single underscores between them. -/
def moreDigits (isDigit : Char → Bool) : List Char → List Char × List Char
  | '_' :: c :: r =>
    if isDigit c then
      let (ds, r) := moreDigits isDigit r
      (c :: ds, r)
    else ([], '_' :: c :: r)
  | c :: r =>
    if isDigit c then
      let (ds, r) := moreDigits isDigit r
      (c :: ds, r)
    else ([], c :: r)
  | [] => ([], [])

def someDigits (isDigit : Char → Bool) : Reader (List Char)
  | c :: r =>
    if isDigit c then
      let (ds, r) := moreDigits isDigit r
      some (c :: ds, r)
    else none
  | [] => none

/-- A sign and digits without a zero in front. -/
def wholeNumber (cs : List Char) : Option (Bool × List Char × List Char) :=
  let (negative, r) := Scan.sign cs
  match r with
  | '0' :: r => some (negative, ['0'], r)
  | r => (someDigits Char.isDigit r).map fun p => (negative, p.1, p.2)

/-- A number in a base that its second character names. -/
def basedNumber : Reader Int
  | '0' :: 'x' :: r => ofDigits 16 (someDigits (fun c => (JsonToken.hexValue? c).isSome) r)
  | '0' :: 'o' :: r => ofDigits 8 (someDigits (fun c => '0' ≤ c && c ≤ '7') r)
  | '0' :: 'b' :: r => ofDigits 2 (someDigits (fun c => c = '0' || c = '1') r)
  | _ => none
where
  ofDigits (base : Nat) (found : Option (List Char × List Char)) : Option (Int × List Char) := do
    let (ds, r) ← found
    let n := ds.foldl (fun n c => base * n + (JsonToken.hexValue? c).getD 0) 0
    if InInt64 n then some ((n : Int), r) else none

def isBased : List Char → Bool
  | '0' :: c :: _ => c = 'x' || c = 'o' || c = 'b'
  | _ => false

def integer (cs : List Char) : Option (Int × List Char) :=
  if isBased cs then basedNumber cs
  else do
    let (negative, ds, r) ← wholeNumber cs
    let n : Int := if negative then -(digitsValue ds : Int) else digitsValue ds
    if InInt64 n then some (n, r) else none

/-- The mark of an exponent, its sign and its digits. -/
def exponent : Reader Int
  | c :: r =>
    if c = 'e' ∨ c = 'E' then do
      let (negative, r) := Scan.sign r
      let (ds, r) ← someDigits Char.isDigit r
      return (if negative then -(digitsValue ds : Int) else digitsValue ds, r)
    else none
  | [] => none

def fraction : Reader (List Char)
  | '.' :: r => someDigits Char.isDigit r
  | _ => none

/-- A number with a point or an exponent; it must not be beyond all finite ones. -/
def number (cs : List Char) : Option (Double × List Char) := do
  let (negative, whole, r) ← wholeNumber cs
  let (ds, e, r) ←
    match fraction r with
    | some (ds, r) =>
      match exponent r with
      | some (e, r) => some (ds, e, r)
      | none => some (ds, 0, r)
    | none => (exponent r).map fun p => ([], p.1, p.2)
  let d := Double.ofDecimal negative (digitsValue (whole ++ ds)) (e - ds.length)
  if d = .infinite false then none else some (d, r)

/-- The words for what is no finite number, perhaps with a sign. -/
def specialNumber (cs : List Char) : Option (Double × List Char) :=
  let (negative, r) := Scan.sign cs
  match r with
  | 'i' :: 'n' :: 'f' :: r => some (.infinite negative, r)
  | 'n' :: 'a' :: 'n' :: r => some (.nan, r)
  | _ => none

/-- A number of exactly so many digits within bounds, with the digits. -/
def fixedDigits (width low high : Nat) (cs : List Char) : Option (List Char × List Char) :=
  let ds := cs.take width
  if ds.length = width ∧ ds.all Char.isDigit ∧ low ≤ digitsValue ds ∧ digitsValue ds ≤ high then
    some (ds, cs.drop width)
  else none

def date (cs : List Char) : Option (List Char × List Char) := do
  let (year, r) ← fixedDigits 4 0 9999 cs
  let r ← afterChar '-' r
  let (month, r) ← fixedDigits 2 1 12 r
  let r ← afterChar '-' r
  let (day, r) ← fixedDigits 2 1 (Date.daysInMonth (digitsValue year) (digitsValue month)) r
  return (year ++ '-' :: month ++ '-' :: day, r)

/-- The places of a second: nine at most are kept, without zeros at their end. -/
def secondPlaces : List Char → Option (List Char × List Char)
  | '.' :: r =>
    match spanDigits r with
    | ([], _) => none
    | (ds, r) =>
      let kept := ((ds.take 9).reverse.dropWhile (· = '0')).reverse
      some (if kept = [] then [] else '.' :: kept, r)
  | r => some ([], r)

def time (cs : List Char) : Option (List Char × List Char) := do
  let (hour, r) ← fixedDigits 2 0 23 cs
  let r ← afterChar ':' r
  let (minute, r) ← fixedDigits 2 0 59 r
  let r ← afterChar ':' r
  let (second, r) ← fixedDigits 2 0 60 r
  let (places, r) ← secondPlaces r
  return (hour ++ ':' :: minute ++ ':' :: second ++ places, r)

/-- The offset of a time, none if there is none. -/
def offset : List Char → Option (List Char × List Char)
  | 'Z' :: r | 'z' :: r => some (['Z'], r)
  | sign :: r =>
    if sign = '+' ∨ sign = '-' then do
      let (hour, r) ← fixedDigits 2 0 23 r
      let r ← afterChar ':' r
      let (minute, r) ← fixedDigits 2 0 59 r
      let sign := if digitsValue (hour ++ minute) = 0 then '+' else sign
      return (sign :: hour ++ ':' :: minute, r)
    else some ([], sign :: r)
  | [] => some ([], [])

/-- The time after a date, with the mark between them. -/
def timeAfterDate : List Char → Option (List Char × List Char)
  | mark :: r =>
    if mark = 'T' ∨ mark = 't' ∨ mark = ' ' then do
      let (t, r) ← time r
      let (o, r) ← offset r
      return ('T' :: t ++ o, r)
    else none
  | [] => none

/-- A date, a time or both, in their written form. -/
def dateTime (cs : List Char) : Option (List Char × List Char) :=
  match date cs with
  | some (d, r) =>
    match timeAfterDate r with
    | some (t, r) => some (d ++ t, r)
    | none => some (d, r)
  | none => time cs

end TradingLoad.Toml
