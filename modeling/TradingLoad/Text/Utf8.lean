namespace TradingLoad.Text

abbrev Octets := List UInt8

/-- The UTF-8 form of a text. -/
def utf8 (cs : List Char) : Octets := cs.flatMap String.utf8EncodeChar

namespace Utf8

/-- What stands for octets that are no text. -/
def replacement : Char := '\ufffd'

/-- Where a reader stands: between characters, or inside of one, with the number of octets that are
to come (the next one left out), the value of those before, and the bounds of the next one. -/
inductive Place where
  | between
  | inside (after value low high : Nat)

/-- The first octet of a character, and what it names by itself. -/
def first (b : Nat) : List Char × Place :=
  if b < 0x80 then ([Char.ofNat b], .between)
  else if b < 0xC2 then ([replacement], .between)
  else if b < 0xE0 then ([], .inside 0 (b - 0xC0) 0x80 0xBF)
  else if b = 0xE0 then ([], .inside 1 0 0xA0 0xBF)
  else if b = 0xED then ([], .inside 1 0xD 0x80 0x9F)
  else if b < 0xF0 then ([], .inside 1 (b - 0xE0) 0x80 0xBF)
  else if b = 0xF0 then ([], .inside 2 0 0x90 0xBF)
  else if b < 0xF4 then ([], .inside 2 (b - 0xF0) 0x80 0xBF)
  else if b = 0xF4 then ([], .inside 2 4 0x80 0x8F)
  else ([replacement], .between)

/-- The next octet, and the characters that end with it. -/
def next (b : Nat) : Place → List Char × Place
  | .between => first b
  | .inside after value low high =>
    if low ≤ b ∧ b ≤ high then
      let value := value * 64 + (b - 0x80)
      match after with
      | 0 => ([Char.ofNat value], .between)
      | after + 1 => ([], .inside after value 0x80 0xBF)
    else
      let (cs, place) := first b
      (replacement :: cs, place)

def readFrom : Place → Octets → List Char
  | .between, [] => []
  | .inside .., [] => [replacement]
  | place, b :: bs =>
    let (cs, place) := next b.toNat place
    cs ++ readFrom place bs

end Utf8

/-- The text that octets stand for. -/
def ofUtf8 (bs : Octets) : List Char := Utf8.readFrom .between bs

/-- The text of a document, whose first character may mark the order of its octets. -/
def ofUtf8Document (bs : Octets) : List Char :=
  match ofUtf8 bs with
  | '\ufeff' :: r => r
  | r => r

end TradingLoad.Text
