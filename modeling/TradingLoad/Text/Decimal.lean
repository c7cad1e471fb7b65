namespace TradingLoad.Text

/-- The decimal digits of a number, the most significant first. -/
def digits (n : Nat) : List Char := Nat.toDigits 10 n

/-- The number that a list of decimal digits denotes. -/
def digitsValue (cs : List Char) : Nat := Nat.ofDigitChars 10 cs 0

theorem digitsValue_digits (n : Nat) : digitsValue (digits n) = n :=
  Nat.ofDigitChars_toDigits (by decide) (by decide)

theorem isDigit_of_mem_digits {n : Nat} {c : Char} (h : c ∈ digits n) : c.isDigit = true :=
  Nat.isDigit_of_mem_toDigits (by decide) (by decide) h

/-- The digits of a number, filled up with zeros on the left to at least `width` characters. -/
def paddedDigits (width n : Nat) : List Char :=
  List.replicate (width - (digits n).length) '0' ++ digits n

/-- A number with its sign where it is negative. -/
def signedDigits (a : Int) : List Char :=
  if a < 0 then '-' :: digits a.natAbs else digits a.natAbs

/-- The decimal text of a number. -/
def decimal (n : Nat) : String := String.ofList (digits n)

/-- The decimal text of a signed number. -/
def signedDecimal (a : Int) : String := String.ofList (signedDigits a)

/-- The longest run of digits at the start of a text, and what follows it. -/
def spanDigits (cs : List Char) : List Char × List Char :=
  (cs.takeWhile Char.isDigit, cs.dropWhile Char.isDigit)

/-- At least one digit and at most `most`, with the number that they denote. -/
def takeNumber (most : Nat) (cs : List Char) : Option (Nat × List Char) :=
  match (cs.take most).takeWhile Char.isDigit with
  | [] => none
  | ds => some (digitsValue ds, cs.drop ds.length)

/-- All digits at the start of a text, at least one, with the number that they denote. -/
def takeLongNumber (cs : List Char) : Option (Nat × List Char) := takeNumber cs.length cs

/-- The text after a given first character. -/
def afterChar (c : Char) : List Char → Option (List Char)
  | [] => none
  | d :: cs => if d = c then some cs else none

end TradingLoad.Text
