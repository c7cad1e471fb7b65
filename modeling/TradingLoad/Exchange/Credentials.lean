import TradingLoad.Random.Uniform
import TradingLoad.Text.Decimal

namespace TradingLoad

open Text

/-- The account of an investor. It is named after a word and a place, and has a random ending, so
that runs do not meet each other's accounts. -/
structure Credentials where
  /-- The name of the investor. -/
  name : String
  /-- The bank account. -/
  account : String
  password : String
  deriving DecidableEq, Repr

namespace Credentials

/-- The letters and digits of random words. -/
def letters : List Char := "ABCDEFGHIJKLMNOPQRSTUVWXYZabcdefghijklmnopqrstuvwxyz0123456789".toList

/-- A random letter or digit. -/
def randomLetter (s : Random.Stream) : Char × Random.Stream :=
  let (v, s) := s.uniform letters.length
  (letters[v - 1]?.getD 'A', s)

/-- A random word of a given length. -/
def randomWord : Nat → Random.Stream → List Char × Random.Stream
  | 0, s => ([], s)
  | n + 1, s =>
    let (c, s) := randomLetter s
    let (cs, s) := randomWord n s
    (c :: cs, s)

theorem length_randomWord (n : Nat) (s : Random.Stream) : (randomWord n s).1.length = n := by
  induction n generalizing s with
  | zero => rfl
  | succ n ih => simp [randomWord, ih]

/-- The length of the ending of an account. -/
def endingLength : Nat := 6

def passwordLength : Nat := 16

/-- The account of an investor up to its random ending. -/
def accountHead (word : String) (place : Nat) : String := word ++ "-" ++ decimal place ++ "-"

/-- A new account for the investor at a place. -/
def generate (word : String) (place : Nat) (s : Random.Stream) : Credentials × Random.Stream :=
  let (ending, s) := randomWord endingLength s
  let (password, s) := randomWord passwordLength s
  ({ name := word ++ " investor " ++ decimal place
     account := accountHead word place ++ String.ofList (ending.map Char.toLower)
     password := String.ofList password }, s)

end Credentials

end TradingLoad
