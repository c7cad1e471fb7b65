import TradingLoad.Failure
import TradingLoad.Market.Order

namespace TradingLoad

/-- What a computation yields: a value or a failure, unless a fault ends it. -/
abbrev Outcome (α : Type) := Checked (Except Failure α)

/-- Sums over a list of orders. -/
structure Totals where
  /-- Money taken for settled sells less money paid for settled buys. -/
  tradedCredit : Int
  /-- Units bought less units sold. -/
  tradedInventory : Int
  /-- Money that the open buys may cost. -/
  reservedCredit : Int
  /-- Units that the open sells may take. -/
  reservedInventory : Int
  deriving DecidableEq, Repr

namespace Totals

def zero : Totals := ⟨0, 0, 0, 0⟩

/-- An order counts by its trade if it is settled, by its limit if it is open, and not at all if it
was closed without a trade. -/
def addOrder (t : Totals) (o : Order) : Checked Totals :=
  match o.trade, o.side with
  | some trade, .sell => do
    let inventory ← Checked.sub t.tradedInventory o.amount
    let credit ← Checked.add t.tradedCredit (← Checked.mul o.amount trade.price)
    return { t with tradedInventory := inventory, tradedCredit := credit }
  | some trade, .buy => do
    let inventory ← Checked.add t.tradedInventory o.amount
    let credit ← Checked.sub t.tradedCredit (← Checked.mul o.amount trade.price)
    return { t with tradedInventory := inventory, tradedCredit := credit }
  | none, side =>
    if o.isClosed then .ok t
    else
      match side with
      | .sell => do
        return { t with reservedInventory := ← Checked.add t.reservedInventory o.amount }
      | .buy => do
        return { t with reservedCredit := ← Checked.add t.reservedCredit (← o.notional) }

def ofOrders (orders : List Order) : Checked Totals := orders.foldlM addOrder zero

end Totals

/-- The endowment of an investor, the orders that it has placed, and the balances and reservations
that follow from them. Balances are never adjusted step by step: a reconciliation computes all of
them anew. -/
structure Ledger where
  initialCredit : Int
  initialInventory : Int
  credit : Int
  inventory : Int
  reservedCredit : Int
  reservedInventory : Int
  /-- Every order that the investor knows of, the oldest first. -/
  orders : List Order
  deriving DecidableEq, Repr

namespace Ledger

/-- A ledger without orders, whatever room there is for them. -/
def new (credit inventory : Int) : Ledger :=
  { initialCredit := credit, initialInventory := inventory, credit, inventory,
    reservedCredit := 0, reservedInventory := 0, orders := [] }

/-- A new ledger that is laid out for so many orders. -/
def newFor (orders : Nat) (credit inventory : Int) : Checked Ledger := do
  Checked.layOut (orders * Order.bytes)
  return new credit inventory

def availableCredit (l : Ledger) : Checked Int := Checked.sub l.credit l.reservedCredit

def availableInventory (l : Ledger) : Checked Int := Checked.sub l.inventory l.reservedInventory

/-- The first order with a given identifier. -/
def find? (l : Ledger) (id : Int) : Option Order := l.orders.find? (·.id = id)

/-- Notes an order that the exchange has accepted. -/
def recordPlaced (l : Ledger) (o : Order) : Ledger := { l with orders := l.orders ++ [o] }

/-- Closes the first order with a given identifier. -/
def closeFirst (id : Int) (at_ : Timestamp) : List Order → List Order
  | [] => []
  | o :: os =>
    if o.id = id then { o with closedAt := some at_ } :: os else o :: closeFirst id at_ os

def markClosed (l : Ledger) (id : Int) (at_ : Timestamp) : Ledger :=
  { l with orders := closeFirst id at_ l.orders }

/-- The ledger has an order with this identifier. -/
def tracks (l : Ledger) (id : Int) : Bool := l.orders.any (·.id = id)

/-- What a reconciliation has changed. -/
structure Report where
  /-- Buy orders that the exchange has dropped on its own. -/
  autoCancelled : Nat
  /-- Orders seen settled for the first time. -/
  newlySettled : Nat
  /-- Orders that still rest on the book. -/
  stillOpen : Nat
  deriving DecidableEq, Repr

/-- The exchange's version of an order. -/
def remoteOf (remote : List Order) (o : Order) : Option Order := remote.find? (·.id = o.id)

/-- The exchange may cancel buys on its own, never sells, so a latest order that is an open sell has
to be the last one of its list. -/
def latestUnreflected (orders remote : List Order) : Option Failure :=
  match orders.getLast? with
  | none => none
  | some latest =>
    if latest.side = .sell && latest.isOpen then
      let actual := remote.getLast?.map Order.id
      if actual = some latest.id then none else some (.orderNotReflected latest.id actual)
    else none

/-- An open order is replaced by the exchange's version; an open buy without one was cancelled. -/
def mergeOrder (remote : List Order) (now : Timestamp) (o : Order) : Except Failure Order :=
  if o.isRemoved then .ok o
  else
    match remoteOf remote o, o.side with
    | some server, _ => .ok server
    | none, .sell => .error (.sellOrderVanished o.id)
    | none, .buy => .ok { o with closedAt := some now }

def merge (orders remote : List Order) (now : Timestamp) : Except Failure (List Order) :=
  orders.mapM (mergeOrder remote now)

def countAutoCancelled (orders remote : List Order) : Nat :=
  orders.countP fun o => o.isOpen && (remoteOf remote o).isNone

def countNewlySettled (orders remote : List Order) : Nat :=
  orders.countP fun o => o.isOpen && (remoteOf remote o).any Order.isSettled

/-- The ledger over a given list of orders, balances and reservations computed from it. -/
def withOrders (l : Ledger) (orders : List Order) : Checked Ledger := do
  let totals ← Totals.ofOrders orders
  let credit ← Checked.add l.initialCredit totals.tradedCredit
  let inventory ← Checked.add l.initialInventory totals.tradedInventory
  return { l with
    credit, inventory, orders,
    reservedCredit := totals.reservedCredit,
    reservedInventory := totals.reservedInventory }

/-- More is reserved than held. -/
def isOvercommitted (l : Ledger) : Bool :=
  l.credit < l.reservedCredit || l.inventory < l.reservedInventory

def desync (l : Ledger) : Checked Failure := do
  return .balanceDesync (← l.availableCredit) (← l.availableInventory)

/-- Takes over the exchange's list of orders. Nothing changes when an order is missing or a number
overflows; a ledger that turns out overcommitted is taken over and reported as such. -/
def reconcile (l : Ledger) (remote : List Order) (now : Timestamp) : Ledger × Outcome Report :=
  match latestUnreflected l.orders remote with
  | some failure => (l, .ok (.error failure))
  | none =>
    match merge l.orders remote now with
    | .error failure => (l, .ok (.error failure))
    | .ok merged =>
      match l.withOrders merged with
      | .error fault => (l, .error fault)
      | .ok committed =>
        if committed.isOvercommitted then (committed, committed.desync.map .error)
        else
          (committed, .ok (.ok
            { autoCancelled := countAutoCancelled l.orders remote
              newlySettled := countNewlySettled l.orders remote
              stillOpen := merged.countP Order.isOpen }))

end Ledger

end TradingLoad
