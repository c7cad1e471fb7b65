import TradingLoad.Fault
import TradingLoad.Time.Timestamp

namespace TradingLoad

inductive Side where
  | buy
  | sell
  deriving DecidableEq, Repr

namespace Side

/-- The word for a side in forms and JSON texts. -/
def word : Side → String
  | buy => "buy"
  | sell => "sell"

def ofWord? : String → Option Side
  | "buy" => some buy
  | "sell" => some sell
  | _ => none

end Side

/-- The settlement of an order. -/
structure Trade where
  id : Int
  amount : Int
  price : Int
  createdAt : Timestamp
  deriving DecidableEq, Repr

/-- An order rests on the book until it is settled by a trade or closed. -/
structure Order where
  id : Int
  side : Side
  userId : Int
  amount : Int
  /-- The limit: the most a buyer pays, the least a seller takes. -/
  price : Int
  createdAt : Timestamp
  closedAt : Option Timestamp
  tradeId : Option Int
  trade : Option Trade
  deriving DecidableEq, Repr

namespace Order

/-- What an order takes in memory: 8 bytes for each of its four numbers, 12 for each of the two
moments, 16 for the number that may be missing, 40 for the settlement and 1 for the side, in all
113, and lists have orders at multiples of 8. -/
def bytes : Nat := 120

/-- An order that the exchange has just accepted. -/
def placed (id : Int) (side : Side) (amount price : Int) (createdAt : Timestamp) : Order :=
  { id, side, userId := 0, amount, price, createdAt, closedAt := none, tradeId := none,
    trade := none }

def isSettled (o : Order) : Bool := o.trade.isSome

def isClosed (o : Order) : Bool := o.closedAt.isSome

def isRemoved (o : Order) : Bool := o.isSettled || o.isClosed

def isOpen (o : Order) : Bool := !o.isRemoved

/-- What the whole order is worth at its limit. -/
def notional (o : Order) : Checked Int := Checked.mul o.amount o.price

end Order

end TradingLoad
