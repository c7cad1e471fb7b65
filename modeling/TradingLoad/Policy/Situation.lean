import TradingLoad.Market.Order

namespace TradingLoad

/-- The orders, the funds that are free, and the prices an investor knows of. A price of 0 is not
known. -/
structure Situation where
  /-- Every order of the investor, the oldest first. -/
  orders : List Order
  availableCredit : Int
  availableInventory : Int
  lowestSellPrice : Int
  highestBuyPrice : Int
  latestTradePrice : Int
  /-- The number of open orders from which on one is taken back. -/
  orderCap : Nat
  deriving DecidableEq, Repr

namespace Situation

def openOrders (s : Situation) : List Order := s.orders.filter Order.isOpen

def openCount (s : Situation) : Nat := s.openOrders.length

/-- How far an order is from the best price on the other side of the book. -/
def opposingMargin (s : Situation) (o : Order) : Checked Int :=
  match o.side with
  | .sell => Checked.sub o.price s.highestBuyPrice
  | .buy => Checked.sub s.lowestSellPrice o.price

/-- The order with the greatest margin, the first one among equals; `best` leads so far. -/
def leastCompetitiveFrom (s : Situation) :
    Option (Order × Int) → List Order → Checked (Option (Order × Int))
  | best, [] => .ok best
  | best, o :: os => do
    let margin ← s.opposingMargin o
    match best with
    | none => s.leastCompetitiveFrom (some (o, margin)) os
    | some (b, lead) =>
      if margin ≤ lead then s.leastCompetitiveFrom (some (b, lead)) os
      else s.leastCompetitiveFrom (some (o, margin)) os

/-- The open order least likely to trade. -/
def leastCompetitive (s : Situation) : Checked (Option Order) := do
  return (← s.leastCompetitiveFrom none s.openOrders).map Prod.fst

end Situation

/-- Why an order is placed. -/
inductive Motive where
  | initialSell
  | initialBuy
  | askBelowReference
  | bidAboveReference
  | concedeOnSell
  | concedeOnBuy
  deriving DecidableEq, Repr

def Motive.text : Motive → String
  | initialSell => "initial sell"
  | initialBuy => "initial buy"
  | askBelowReference => "ask below reference"
  | bidAboveReference => "bid above reference"
  | concedeOnSell => "concede on sell"
  | concedeOnBuy => "concede on buy"

inductive Decision where
  | hold
  | place (side : Side) (amount price : Int) (motive : Motive)
  /-- Takes back an order because there are as many as allowed. -/
  | cancel (orderId : Int)
  /-- The price held to be fair changes. -/
  | reprice (before after : Int)
  deriving DecidableEq, Repr

/-- Why an order is taken back. -/
def Decision.cancelReason : String := "order cap reached"

end TradingLoad
