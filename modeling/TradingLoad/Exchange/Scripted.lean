import TradingLoad.Exchange.Call

namespace TradingLoad

/-- A change to a scripted exchange. -/
inductive ScriptChange where
  | book (ask bid : Int)
  | latest (price : Option Int)
  /-- What the account holds at the bank; none for no limit. -/
  | balance (value : Option Int)
  /-- Trades the first order of an identifier. -/
  | settle (id price : Int)
  /-- Forgets an order. -/
  | vanish (id : Int)
  | close (id : Int)
  | orders (orders : List Order)
  | nextId (value : Int)
  | retire
  /-- Replies that are given instead of what the exchange would answer. -/
  | canned (endpoint : Endpoint) (replies : List endpoint.Reply)
  | latency (endpoint : Endpoint) (milliseconds : Nat)
  /-- Changes to be made at the call with a given number. -/
  | hook (call : Nat) (changes : List ScriptChange)
  /-- At every so manieth fetch of the orders, the first open one trades, at its limit if no price
  is given. -/
  | fill (every : Nat) (price : Option Int)

/-- An exchange that keeps a list of orders and a book with two prices, and does what it is told at
given calls. -/
structure ScriptedExchange where
  orders : List Order
  nextId : Int
  cursor : Int
  /-- Trades not yet reported. -/
  traded : List Order
  ask : Int
  bid : Int
  latest : Option Int
  balance : Option Int
  retired : Bool
  canned : (e : Endpoint) → List e.Reply
  latencies : Endpoint → Nat
  hooks : List (Nat × List ScriptChange)
  fill : Option (Nat × Option Int)
  /-- The calls made so far, the first one first. -/
  log : List (Nat × Call)
  /-- How often the orders have been fetched. -/
  fetches : Nat

namespace ScriptedExchange

def initial : ScriptedExchange :=
  { orders := [], nextId := 1, cursor := 0, traded := [], ask := 0, bid := 0, latest := none,
    balance := none, retired := false, canned := fun _ => [], latencies := fun _ => 0, hooks := [],
    fill := none, log := [], fetches := 0 }

/-- When orders are created on the exchange. -/
def openingTime : Timestamp := ⟨⟨2018, 10, 20⟩, 600, 0, 0⟩

/-- When orders are closed and traded. -/
def closingTime : Timestamp := ⟨⟨2018, 10, 20⟩, 605, 0, 0⟩

/-- Changes the first order that meets a condition, and tells what it has become. -/
def updateFirst (p : Order → Bool) (f : Order → Order) : List Order → List Order × Option Order
  | [] => ([], none)
  | o :: os =>
    if p o then (f o :: os, some (f o))
    else
      let (os, changed) := updateFirst p f os
      (o :: os, changed)

/-- An order that has traded as a whole. -/
def tradedAt (price : Int) (o : Order) : Order :=
  { o with
    trade := some { id := 1, amount := o.amount, price, createdAt := closingTime }
    tradeId := some 1
    closedAt := some closingTime }

/-- Trades the first order that meets a condition, at a price that may depend on it. -/
def trade (x : ScriptedExchange) (p : Order → Bool) (price : Order → Int) : ScriptedExchange :=
  match updateFirst p (fun o => tradedAt (price o) o) x.orders with
  | (_, none) => x
  | (orders, some o) =>
    { x with orders, traded := x.traded ++ [o], latest := o.trade.map Trade.price }

/-- One change. -/
def change (x : ScriptedExchange) : ScriptChange → ScriptedExchange
  | .book ask bid => { x with ask, bid }
  | .latest price => { x with latest := price }
  | .balance value => { x with balance := value }
  | .settle id price => x.trade (·.id = id) fun _ => price
  | .vanish id => { x with orders := x.orders.filter (·.id ≠ id) }
  | .close id =>
    { x with
      orders := (updateFirst (·.id = id) (fun o => { o with closedAt := some closingTime })
        x.orders).1 }
  | .orders orders => { x with orders }
  | .nextId value => { x with nextId := value }
  | .retire => { x with retired := true }
  | .canned endpoint replies =>
    { x with
      canned := fun e =>
        if h : endpoint = e then x.canned e ++ h ▸ replies else x.canned e }
  | .latency endpoint milliseconds =>
    { x with latencies := fun e => if endpoint = e then milliseconds else x.latencies e }
  | .hook call changes => { x with hooks := x.hooks ++ [(call, changes)] }
  | .fill every price => { x with fill := some (every, price) }

def changeAll (x : ScriptedExchange) (changes : List ScriptChange) : ScriptedExchange :=
  changes.foldl change x

/-- Writes a call down and makes the changes that belong to its number. -/
def note (now : Nat) (c : Call) (x : ScriptedExchange) : ScriptedExchange :=
  let x := { x with log := x.log ++ [(now, c)] }
  x.changeAll ((x.hooks.filter (·.1 = x.log.length)).flatMap Prod.snd)

/-- The chart of an exchange on which the last trade was at a price. -/
def chart (price : Int) : List Candlestick := [⟨openingTime, price, price, price, price⟩]

def info (x : ScriptedExchange) : InfoSnapshot × ScriptedExchange :=
  let cursor := x.cursor + 1
  ({ cursor, tradedOrders := some x.traded, lowestSellPrice := x.ask, highestBuyPrice := x.bid,
     chartBySecond := [], chartByMinute := [], chartByHour := (x.latest.map chart).getD [],
     enableShare := false },
   { x with cursor, traded := [] })

/-- The list of orders, after a trade where the fill rule wants one. -/
def fetch (x : ScriptedExchange) : List Order × ScriptedExchange :=
  let x := { x with fetches := x.fetches + 1 }
  let x := match x.fill with
    | none => x
    | some (every, price) =>
      if x.fetches % every = 0 then x.trade Order.isOpen fun o => price.getD o.price else x
  (x.orders, x)

/-- Accepts an order, unless it is a buy beyond the balance. -/
def accept (x : ScriptedExchange) (side : Side) (amount price : Int) :
    Except Failure Order × ScriptedExchange :=
  if side = .buy ∧ x.balance.any (· < amount * price) then
    (.error (.status 400 "銀行残高が足りません"), x)
  else
    let o := Order.placed x.nextId side amount price openingTime
    (.ok o, { x with orders := x.orders ++ [o], nextId := x.nextId + 1 })

/-- Closes an open order. -/
def remove (x : ScriptedExchange) (id : Int) : Except Failure Unit × ScriptedExchange :=
  match x.orders.find? (·.id = id) with
  | none => (.error (.status 404 "not found"), x)
  | some o =>
    if o.isOpen then (.ok (), x.change (.close id))
    else (.error (.status 404 "already closed"), x)

/-- What the exchange answers of its own accord. -/
def answer (x : ScriptedExchange) : (c : Call) → c.Reply × ScriptedExchange
  | .top => (.ok (), x)
  | .signup => (.ok (), x)
  | .signin => (.ok (), x)
  | .info _ =>
    let (info, x) := x.info
    (.ok info, x)
  | .getOrders =>
    let (orders, x) := x.fetch
    (.ok orders, x)
  | .addOrder side amount price => x.accept side amount price
  | .deleteOrder id => x.remove id

/-- A canned reply if there is one, else the exchange's own answer. -/
def reply (c : Call) (x : ScriptedExchange) : c.Reply × ScriptedExchange :=
  match x.canned c.endpoint with
  | [] => x.answer c
  | r :: rest =>
    (r, { x with canned := fun e => if h : c.endpoint = e then h ▸ rest else x.canned e })

/-- The scripted exchange as an exchange. -/
def exchange : Exchange ScriptedExchange where
  note := note
  latency x c := some (x.latencies c.endpoint)
  reply := reply
  isRetired x := x.retired
  retire x := x.change .retire

end ScriptedExchange

end TradingLoad
