import TradingLoad.Json.Record
import TradingLoad.Market.Info
import TradingLoad.Time.Rfc3339

namespace TradingLoad

namespace Timestamp

def ofJson? (v : JsonValue) : Option Timestamp := v.string?.bind parse?

def toJson (t : Timestamp) : JsonValue := .ofString t.render

end Timestamp

namespace Side

/-- A side is its word, or an object whose only member has the word as its name and no value. -/
def ofJson? : JsonValue → Option Side
  | .text (some s) => ofWord? s
  | .object [(some s, .null)] => ofWord? s
  | _ => none

def toJson (s : Side) : JsonValue := .ofString s.word

end Side

namespace Trade

def fieldNames : List String := ["id", "amount", "price", "created_at"]

def ofJson? (v : JsonValue) : Option Trade := do
  let r ← v.fields? fieldNames
  let id ← r.required "id" JsonValue.int?
  let amount ← r.required "amount" JsonValue.int?
  let price ← r.required "price" JsonValue.int?
  let createdAt ← r.required "created_at" Timestamp.ofJson?
  return ⟨id, amount, price, createdAt⟩

def toJson (t : Trade) : JsonValue :=
  .ofFields [("id", .ofInt t.id), ("amount", .ofInt t.amount), ("price", .ofInt t.price),
    ("created_at", t.createdAt.toJson)]

end Trade

namespace Order

def fieldNames : List String :=
  ["id", "type", "user_id", "amount", "price", "created_at", "closed_at", "trade_id", "trade"]

def ofJson? (v : JsonValue) : Option Order := do
  let r ← v.fields? fieldNames
  let id ← r.required "id" JsonValue.int?
  let side ← r.required "type" Side.ofJson?
  let userId ← r.defaulted "user_id" 0 JsonValue.int?
  let amount ← r.required "amount" JsonValue.int?
  let price ← r.required "price" JsonValue.int?
  let createdAt ← r.required "created_at" Timestamp.ofJson?
  let closedAt ← r.defaulted "closed_at" none (JsonValue.option? Timestamp.ofJson?)
  let tradeId ← r.defaulted "trade_id" none (JsonValue.option? JsonValue.int?)
  let trade ← r.defaulted "trade" none (JsonValue.option? Trade.ofJson?)
  return ⟨id, side, userId, amount, price, createdAt, closedAt, tradeId, trade⟩

def toJson (o : Order) : JsonValue :=
  .ofFields [("id", .ofInt o.id), ("type", o.side.toJson), ("user_id", .ofInt o.userId),
    ("amount", .ofInt o.amount), ("price", .ofInt o.price), ("created_at", o.createdAt.toJson),
    ("closed_at", .ofOption Timestamp.toJson o.closedAt),
    ("trade_id", .ofOption .ofInt o.tradeId), ("trade", .ofOption Trade.toJson o.trade)]

/-- A list of orders; the exchange writes `null` for an empty one. -/
def listOfJson? : JsonValue → Option (List Order)
  | .null => some []
  | v => v.list? ofJson?

end Order

namespace Candlestick

def fieldNames : List String := ["time", "open", "close", "high", "low"]

def ofJson? (v : JsonValue) : Option Candlestick := do
  let r ← v.fields? fieldNames
  let time ← r.required "time" Timestamp.ofJson?
  let opening ← r.required "open" JsonValue.int?
  let closing ← r.required "close" JsonValue.int?
  let high ← r.required "high" JsonValue.int?
  let low ← r.required "low" JsonValue.int?
  return ⟨time, opening, closing, high, low⟩

def toJson (c : Candlestick) : JsonValue :=
  .ofFields [("time", c.time.toJson), ("open", .ofInt c.opening), ("close", .ofInt c.closing),
    ("high", .ofInt c.high), ("low", .ofInt c.low)]

end Candlestick

namespace InfoSnapshot

def fieldNames : List String :=
  ["cursor", "traded_orders", "lowest_sell_price", "highest_buy_price", "chart_by_sec",
    "chart_by_min", "chart_by_hour", "enable_share"]

def ofJson? (v : JsonValue) : Option InfoSnapshot := do
  let r ← v.fields? fieldNames
  let cursor ← r.required "cursor" JsonValue.int?
  let tradedOrders ←
    r.defaulted "traded_orders" none (JsonValue.option? (JsonValue.list? Order.ofJson?))
  let lowestSellPrice ← r.defaulted "lowest_sell_price" 0 JsonValue.int?
  let highestBuyPrice ← r.defaulted "highest_buy_price" 0 JsonValue.int?
  let chartBySecond ← r.defaulted "chart_by_sec" [] (JsonValue.list? Candlestick.ofJson?)
  let chartByMinute ← r.defaulted "chart_by_min" [] (JsonValue.list? Candlestick.ofJson?)
  let chartByHour ← r.defaulted "chart_by_hour" [] (JsonValue.list? Candlestick.ofJson?)
  let enableShare ← r.defaulted "enable_share" false JsonValue.bool?
  return ⟨cursor, tradedOrders, lowestSellPrice, highestBuyPrice, chartBySecond, chartByMinute,
    chartByHour, enableShare⟩

def toJson (info : InfoSnapshot) : JsonValue :=
  .ofFields [("cursor", .ofInt info.cursor),
    ("traded_orders", .ofOption (.ofList Order.toJson) info.tradedOrders),
    ("lowest_sell_price", .ofInt info.lowestSellPrice),
    ("highest_buy_price", .ofInt info.highestBuyPrice),
    ("chart_by_sec", .ofList Candlestick.toJson info.chartBySecond),
    ("chart_by_min", .ofList Candlestick.toJson info.chartByMinute),
    ("chart_by_hour", .ofList Candlestick.toJson info.chartByHour),
    ("enable_share", .bool info.enableShare)]

end InfoSnapshot

/-- The body of an answer that reports an error. -/
structure ErrorReply where
  code : Nat
  text : String
  deriving DecidableEq, Repr

namespace ErrorReply

def fieldNames : List String := ["code", "err"]

def ofJson? (v : JsonValue) : Option ErrorReply := do
  let r ← v.fields? fieldNames
  let code ← r.defaulted "code" 0 (JsonValue.word? 16)
  let text ← r.defaulted "err" "" JsonValue.string?
  return ⟨code, text⟩

def toJson (e : ErrorReply) : JsonValue :=
  .ofFields [("code", .ofNat e.code), ("err", .ofString e.text)]

end ErrorReply

/-- The body of the answer to a new order. -/
structure AcceptedReply where
  id : Int
  deriving DecidableEq, Repr

namespace AcceptedReply

def fieldNames : List String := ["id"]

def ofJson? (v : JsonValue) : Option AcceptedReply := do
  let r ← v.fields? fieldNames
  return { id := ← r.required "id" JsonValue.int? }

def toJson (a : AcceptedReply) : JsonValue := .ofFields [("id", .ofInt a.id)]

end AcceptedReply

end TradingLoad
