import TradingLoad.Failure
import TradingLoad.Market.Info

namespace TradingLoad

inductive Endpoint where
  | top
  | signup
  | signin
  | info
  | getOrders
  | addOrder
  | deleteOrder
  deriving DecidableEq, Repr

/-- What an endpoint answers when a call succeeds. -/
def Endpoint.Answer : Endpoint → Type
  | info => InfoSnapshot
  | getOrders => List Order
  | addOrder => Order
  | _ => Unit

/-- How a call to an endpoint ends. -/
abbrev Endpoint.Reply (e : Endpoint) := Except Failure e.Answer

inductive Call where
  | top
  | signup
  | signin
  /-- A poll of the market, with the trades since a position in their list. -/
  | info (cursor : Int)
  | getOrders
  | addOrder (side : Side) (amount price : Int)
  | deleteOrder (id : Int)
  deriving DecidableEq, Repr

namespace Call

def endpoint : Call → Endpoint
  | top => .top
  | signup => .signup
  | signin => .signin
  | info _ => .info
  | getOrders => .getOrders
  | addOrder _ _ _ => .addOrder
  | deleteOrder _ => .deleteOrder

abbrev Answer (c : Call) := c.endpoint.Answer

abbrev Reply (c : Call) := c.endpoint.Reply

end Call

/-- An exchange with states of type `σ`, as one investor meets it. -/
structure Exchange (σ : Type) where
  /-- Takes note of a call at the moment at which it is made. -/
  note : Nat → Call → σ → σ
  /-- How long a call that has been noted takes; none for ever. -/
  latency : σ → Call → Option Nat
  /-- The reply to a call, once it has taken its time. -/
  reply : (c : Call) → σ → c.Reply × σ
  /-- The investor is out: no new work is made up for it. -/
  isRetired : σ → Bool
  retire : σ → σ

end TradingLoad
