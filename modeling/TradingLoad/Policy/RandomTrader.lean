import TradingLoad.Policy.Situation
import TradingLoad.Random.Uniform

namespace TradingLoad

/-- A trader that keeps a price which it holds to be fair. It sells above it and buys below it in
random amounts, meets the book halfway when it holds too much of either side, and moves its price
halfway to the latest trade when nothing else is left to do. -/
structure RandomTrader where
  /-- The most that one order is for. -/
  unitAmount : Int
  /-- The price held to be fair. -/
  referencePrice : Int
  source : Random.Stream
  deriving DecidableEq

namespace RandomTrader

def name : String := "random"

def ofSeed (unitAmount unitPrice : Int) (seed : UInt64) : RandomTrader :=
  ⟨unitAmount, unitPrice, Random.Stream.ofSeed seed⟩

/-- A random amount between 1 and `upper`, cut to a unit. -/
def drawAmount (t : RandomTrader) (upper : Int) : Int × RandomTrader :=
  let (v, source) := t.source.uniform (max upper 1).toNat
  (min (v : Int) t.unitAmount, { t with source })

/-- The price halfway between two prices, cut towards zero. -/
def midpoint (a b : Int) : Checked Int := do return (← Checked.add a b).tdiv 2

/-- Places a random amount, `most` at the most where there is such a limit. -/
def placeAtRandom (t : RandomTrader) (side : Side) (upper : Int) (most : Option Int) (price : Int)
    (motive : Motive) : Decision × RandomTrader :=
  let (amount, t) := t.drawAmount upper
  (.place side ((most.map (min amount)).getD amount) price motive, t)

/-- The last rung: the reference price moves towards the latest trade. -/
def revise (t : RandomTrader) (s : Situation) : Checked (Decision × RandomTrader) :=
  if 0 < s.latestTradePrice then do
    let price ← midpoint s.latestTradePrice t.referencePrice
    return (.reprice t.referencePrice price, { t with referencePrice := price })
  else .ok (.hold, t)

/-- Bids halfway to the book for no more than the free credit buys. -/
def concedeOnBuy (t : RandomTrader) (s : Situation) : Checked (Decision × RandomTrader) := do
  let middle ← midpoint s.highestBuyPrice t.referencePrice
  let price := if s.highestBuyPrice = 0 then t.referencePrice else middle
  let affordable := if 0 < price then s.availableCredit.tdiv price else 0
  if middle < s.availableCredit ∧ 0 < affordable then
    return t.placeAtRandom .buy t.unitAmount (some affordable) price .concedeOnBuy
  else t.revise s

/-- Offers halfway to the book. -/
def concedeOnSell (t : RandomTrader) (s : Situation) : Checked (Decision × RandomTrader) := do
  let price ←
    if s.lowestSellPrice = 0 then pure t.referencePrice
    else midpoint s.lowestSellPrice t.referencePrice
  return t.placeAtRandom .sell t.unitAmount none price .concedeOnSell

/-- The decision of a trader that has an order on the book. -/
def decideWithOrders (t : RandomTrader) (s : Situation) : Checked (Decision × RandomTrader) :=
  if 0 < s.lowestSellPrice ∧ s.lowestSellPrice < t.referencePrice ∧
      s.lowestSellPrice ≤ s.availableCredit then
    .ok (t.placeAtRandom .buy (s.availableCredit.tdiv s.lowestSellPrice) none s.lowestSellPrice
      .askBelowReference)
  else if 0 < s.highestBuyPrice ∧ t.referencePrice < s.highestBuyPrice ∧
      0 < s.availableInventory then
    .ok (t.placeAtRandom .sell s.availableInventory none s.highestBuyPrice .bidAboveReference)
  else if t.unitAmount < s.availableInventory then t.concedeOnSell s
  else t.concedeOnBuy s

/-- The decision of a trader below its order cap. -/
def decideBelowCap (t : RandomTrader) (s : Situation) : Checked (Decision × RandomTrader) :=
  if s.openCount = 0 then
    if t.unitAmount < s.availableInventory then
      .ok (.place .sell t.unitAmount t.referencePrice .initialSell, t)
    else .ok (.place .buy t.unitAmount t.referencePrice .initialBuy, t)
  else t.decideWithOrders s

/-- One look at the situation, and at most one action. -/
def decide (t : RandomTrader) (s : Situation) : Checked (Decision × RandomTrader) :=
  if s.orderCap ≤ s.openCount then do
    match ← s.leastCompetitive with
    | some o => return (.cancel o.id, t)
    | none => t.decideBelowCap s
  else t.decideBelowCap s

end RandomTrader

end TradingLoad
