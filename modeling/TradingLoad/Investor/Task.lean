import TradingLoad.Exchange.Call

namespace TradingLoad

/-- The tasks of an investor. Each makes one call at most. -/
inductive Task where
  | top
  | signup
  | signin
  | info
  /-- Fetches the orders and reconciles the ledger with them. -/
  | updateOrders
  /-- Looks at the situation and queues what is decided. -/
  | decision
  | addOrder (side : Side) (amount price : Int)
  | removeOrder (id : Int)
  deriving DecidableEq, Repr

/-- Parts of an investor's state that one task at a time may hold. -/
inductive Region where
  /-- The ledger, the time of the last order, and the trader. -/
  | trading
  /-- The pace of polls. -/
  | polling
  deriving DecidableEq, Repr

namespace Task

def name : Task → String
  | top => "top"
  | signup => "signup"
  | signin => "signin"
  | info => "info"
  | updateOrders => "update_orders"
  | decision => "decision"
  | addOrder _ _ _ => "add_order"
  | removeOrder _ => "remove_order"

def region : Task → Option Region
  | top => none
  | signin => none
  | info => some .polling
  | signup => some .trading
  | updateOrders => some .trading
  | decision => some .trading
  | addOrder _ _ _ => some .trading
  | removeOrder _ => some .trading

/-- The task starts with a random delay, so that investors do not all sign up at once. -/
def isSpread : Task → Bool
  | signup => true
  | signin => true
  | _ => false

end Task

end TradingLoad
