namespace TradingLoad

/-- The pace of polls: where the last one ended, and when the next one may start. -/
structure Polling where
  /-- The position in the exchange's list of trades up to which they are known. -/
  cursor : Int
  /-- The first moment of the next poll; none before the first poll. -/
  nextPollAt : Option Nat
  deriving DecidableEq, Repr

namespace Polling

def initial : Polling := ⟨0, none⟩

def isDue (p : Polling) (now : Nat) : Bool :=
  match p.nextPollAt with
  | none => true
  | some at_ => at_ ≤ now

end Polling

end TradingLoad
