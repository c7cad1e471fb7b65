import TradingLoad.Config.Settings
import TradingLoad.Investor.Polling
import TradingLoad.Investor.Task
import TradingLoad.Ledger
import TradingLoad.Policy.RandomTrader

namespace TradingLoad

/-- What an investor knows and owns. -/
structure Investor where
  /-- The bank account under which the investor is known. -/
  account : String
  rewards : Rewards
  timing : Timing
  ledger : Ledger
  /-- When the last order was accepted. -/
  lastOrderAt : Option Nat
  trader : RandomTrader
  polling : Polling
  market : MarketView
  /-- Tasks for the next tick, the oldest first. -/
  pending : List Task
  signedIn : Bool
  started : Bool
  deriving DecidableEq

namespace Investor

/-- A new investor, with any source of random numbers for its trader. Its ledger is laid out for the
orders of a whole run, so their number has to be a number, and they have to fit into a list. -/
def new (account : String) (profile : InvestorProfile) (rewards : Rewards) (timing : Timing)
    (source : Random.Stream) : Checked Investor := do
  let ledger ← Ledger.newFor (← timing.maxOrders) profile.credit profile.inventory
  return {
    account, rewards, timing, ledger
    lastOrderAt := none
    trader := { unitAmount := profile.unitAmount, referencePrice := profile.unitPrice, source }
    polling := .initial
    market := .unknown
    pending := []
    signedIn := false
    started := false }

/-- Queues a task for the next tick. -/
def push (inv : Investor) (task : Task) : Investor := { inv with pending := inv.pending ++ [task] }

@[simp] theorem pending_push (inv : Investor) (task : Task) :
    (inv.push task).pending = inv.pending ++ [task] := rfl

@[simp] theorem ledger_push (inv : Investor) (task : Task) :
    (inv.push task).ledger = inv.ledger := rfl

/-- What a task does once it holds its region. -/
inductive Opening where
  /-- The task is over, with a score. -/
  | done (score : Nat)
  | ask (call : Call)

/-- Orders are placed at least an interval apart; the first one does not wait. -/
def isPlacementDue (inv : Investor) (now : Nat) : Bool :=
  inv.ledger.orders.isEmpty ||
    match inv.lastOrderAt with
    | none => true
    | some at_ => at_ + inv.timing.orderUpdateIntervalMs ≤ now

def situation (inv : Investor) : Checked Situation := do
  let availableCredit ← inv.ledger.availableCredit
  let availableInventory ← inv.ledger.availableInventory
  return {
    orders := inv.ledger.orders, availableCredit, availableInventory
    lowestSellPrice := inv.market.lowestSellPrice
    highestBuyPrice := inv.market.highestBuyPrice
    latestTradePrice := inv.market.latestTradePrice
    orderCap := inv.timing.orderCap }

/-- The task that carries out a decision, if it takes one. -/
def taskOf : Decision → Option Task
  | .hold => none
  | .place side amount price _ => some (.addOrder side amount price)
  | .cancel id => some (.removeOrder id)
  | .reprice _ _ => none

/-- Lets the trader decide, and queues the task that follows from it and a reconciliation. -/
def decide (inv : Investor) (retired : Bool) (now : Nat) : Checked Investor :=
  if retired || !inv.isPlacementDue now then .ok inv
  else do
    let (decision, trader) ← inv.trader.decide (← inv.situation)
    let inv := { inv with trader }
    return match taskOf decision with
      | some task => (inv.push task).push .updateOrders
      | none => inv

/-- What a task does before it waits for the exchange. -/
def begin (inv : Investor) (retired : Bool) (now : Nat) : Task → Checked (Investor × Opening)
  | .top => .ok (inv, .ask .top)
  | .signup => .ok (inv, if inv.signedIn then .done 0 else .ask .signup)
  | .signin => .ok (inv, .ask .signin)
  | .info =>
    .ok (inv,
      if retired || !inv.polling.isDue now then .done 0 else .ask (.info inv.polling.cursor))
  | .updateOrders => .ok (inv, .ask .getOrders)
  | .decision => do return (← inv.decide retired now, .done 0)
  | .addOrder side amount price => .ok (inv, .ask (.addOrder side amount price))
  | .removeOrder id =>
    .ok (inv, if (inv.ledger.find? id).any Order.isRemoved then .done 0 else .ask (.deleteOrder id))

/-- A snapshot of the market sets the pace of polls and the view of the market; trades among the
investor's orders call for a reconciliation. -/
def observe (inv : Investor) (now : Nat) (info : InfoSnapshot) : Investor :=
  let inv := { inv with
    polling := ⟨info.cursor, some (now + inv.timing.pollingIntervalMs)⟩
    market := inv.market.apply info }
  if info.hasTradedOrders then inv.push .updateOrders else inv

/-- What a reply changes, and what the task that made the call comes to: a score or a failure. -/
def receive (inv : Investor) (now : Nat) (wallClock : Timestamp) :
    (c : Call) → c.Reply → Investor × Outcome Nat
  | .top, .ok _ => (inv, .ok (.ok inv.rewards.top))
  | .signup, .ok _ => (inv, .ok (.ok inv.rewards.signup))
  | .signup, .error failure =>
    (inv, .ok (if failure.isAlreadyExists then .ok inv.rewards.signup else .error failure))
  | .signin, .ok _ => ({ inv with signedIn := true }, .ok (.ok inv.rewards.signin))
  | .info _, .ok info => (inv.observe now info, .ok (.ok inv.rewards.info))
  | .getOrders, .ok orders =>
    let (ledger, outcome) := inv.ledger.reconcile orders wallClock
    ({ inv with ledger }, outcome.map fun result => result.map fun _ => inv.rewards.getOrders)
  | .addOrder _ _ _, .ok order =>
    ({ inv with ledger := inv.ledger.recordPlaced order, lastOrderAt := some now },
      .ok (.ok inv.rewards.addOrder))
  | .addOrder _ _ _, .error failure =>
    (inv, .ok (if failure.isInsufficientBalance then .ok 0 else .error failure))
  | .deleteOrder id, .ok _ =>
    ({ inv with ledger := inv.ledger.markClosed id wallClock }, .ok (.ok inv.rewards.deleteOrder))
  | .deleteOrder _, .error failure =>
    (inv, .ok (if failure.isNotFound then .ok 0 else .error failure))
  | _, .error failure => (inv, .ok (.error failure))

end Investor

end TradingLoad
