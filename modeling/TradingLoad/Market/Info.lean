import TradingLoad.Market.Order

namespace TradingLoad

/-- The prices of one stretch of time on the chart. -/
structure Candlestick where
  time : Timestamp
  opening : Int
  closing : Int
  high : Int
  low : Int
  deriving DecidableEq, Repr

/-- An answer of the exchange to a poll. A price of 0 stands for an empty side of the book. -/
structure InfoSnapshot where
  cursor : Int
  tradedOrders : Option (List Order)
  lowestSellPrice : Int
  highestBuyPrice : Int
  chartBySecond : List Candlestick
  chartByMinute : List Candlestick
  chartByHour : List Candlestick
  enableShare : Bool
  deriving DecidableEq, Repr

namespace InfoSnapshot

/-- The close of the last hourly candle. -/
def latestTradePrice (info : InfoSnapshot) : Option Int :=
  info.chartByHour.getLast?.map Candlestick.closing

/-- Orders of the caller have traded since the cursor of the poll. -/
def hasTradedOrders (info : InfoSnapshot) : Bool :=
  match info.tradedOrders with
  | some (_ :: _) => true
  | _ => false

end InfoSnapshot

/-- The last prices seen; 0 stands for a price not known. -/
structure MarketView where
  lowestSellPrice : Int
  highestBuyPrice : Int
  latestTradePrice : Int
  deriving DecidableEq, Repr

namespace MarketView

def unknown : MarketView := ⟨0, 0, 0⟩

/-- Best prices are replaced by those of the answer, the latest price only where there is one. -/
def apply (view : MarketView) (info : InfoSnapshot) : MarketView :=
  { lowestSellPrice := info.lowestSellPrice
    highestBuyPrice := info.highestBuyPrice
    latestTradePrice := info.latestTradePrice.getD view.latestTradePrice }

/-- The view after a list of answers. -/
def ofSnapshots (infos : List InfoSnapshot) : MarketView := infos.foldl apply unknown

end MarketView

end TradingLoad
