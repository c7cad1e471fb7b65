import TradingLoad.Config.Settings
import TradingLoad.Json.Record

namespace TradingLoad

namespace Target

def fieldNames : List String := ["base_url", "request_timeout_ms", "max_transport_failures"]

def ofData? {V : Type} (n : DataNotation V) (v : V) : Option Target := do
  let r ← n.fields? fieldNames v
  let baseUrl ← r.defaulted "base_url" standard.baseUrl n.string?
  let requestTimeoutMs ← r.defaulted "request_timeout_ms" standard.requestTimeoutMs (n.word? 64)
  let maxTransportFailures ←
    r.defaulted "max_transport_failures" standard.maxTransportFailures (n.word? 32)
  return ⟨baseUrl, requestTimeoutMs, maxTransportFailures⟩

def toJson (t : Target) : JsonValue :=
  .ofFields [("base_url", .ofString t.baseUrl), ("request_timeout_ms", .ofNat t.requestTimeoutMs),
    ("max_transport_failures", .ofNat t.maxTransportFailures)]

end Target

namespace Rewards

def fieldNames : List String :=
  ["get_top", "signup", "signin", "get_info", "get_orders", "post_orders", "delete_orders"]

def ofData? {V : Type} (n : DataNotation V) (v : V) : Option Rewards := do
  let r ← n.fields? fieldNames v
  let top ← r.defaulted "get_top" standard.top (n.word? 64)
  let signup ← r.defaulted "signup" standard.signup (n.word? 64)
  let signin ← r.defaulted "signin" standard.signin (n.word? 64)
  let info ← r.defaulted "get_info" standard.info (n.word? 64)
  let getOrders ← r.defaulted "get_orders" standard.getOrders (n.word? 64)
  let addOrder ← r.defaulted "post_orders" standard.addOrder (n.word? 64)
  let deleteOrder ← r.defaulted "delete_orders" standard.deleteOrder (n.word? 64)
  return ⟨top, signup, signin, info, getOrders, addOrder, deleteOrder⟩

def toJson (r : Rewards) : JsonValue :=
  .ofFields [("get_top", .ofNat r.top), ("signup", .ofNat r.signup), ("signin", .ofNat r.signin),
    ("get_info", .ofNat r.info), ("get_orders", .ofNat r.getOrders),
    ("post_orders", .ofNat r.addOrder), ("delete_orders", .ofNat r.deleteOrder)]

end Rewards

namespace Timing

def fieldNames : List String :=
  ["order_cap", "polling_interval_ms", "order_update_interval_ms", "benchmark_time_secs",
    "tick_interval_ms", "signup_jitter_ms"]

def ofData? {V : Type} (n : DataNotation V) (v : V) : Option Timing := do
  let r ← n.fields? fieldNames v
  let orderCap ← r.defaulted "order_cap" standard.orderCap (n.word? 64)
  let pollingIntervalMs ← r.defaulted "polling_interval_ms" standard.pollingIntervalMs (n.word? 64)
  let orderUpdateIntervalMs ←
    r.defaulted "order_update_interval_ms" standard.orderUpdateIntervalMs (n.word? 64)
  let benchmarkTimeSecs ← r.defaulted "benchmark_time_secs" standard.benchmarkTimeSecs (n.word? 64)
  let tickIntervalMs ← r.defaulted "tick_interval_ms" standard.tickIntervalMs (n.word? 64)
  let signupJitterMs ← r.defaulted "signup_jitter_ms" standard.signupJitterMs (n.word? 64)
  return ⟨orderCap, pollingIntervalMs, orderUpdateIntervalMs, benchmarkTimeSecs, tickIntervalMs,
    signupJitterMs⟩

def toJson (t : Timing) : JsonValue :=
  .ofFields [("order_cap", .ofNat t.orderCap), ("polling_interval_ms", .ofNat t.pollingIntervalMs),
    ("order_update_interval_ms", .ofNat t.orderUpdateIntervalMs),
    ("benchmark_time_secs", .ofNat t.benchmarkTimeSecs),
    ("tick_interval_ms", .ofNat t.tickIntervalMs),
    ("signup_jitter_ms", .ofNat t.signupJitterMs)]

end Timing

namespace InvestorProfile

def fieldNames : List String := ["credit", "inventory", "unit_amount", "unit_price", "count"]

def ofData? {V : Type} (n : DataNotation V) (v : V) : Option InvestorProfile := do
  let r ← n.fields? fieldNames v
  let credit ← r.defaulted "credit" standard.credit n.int?
  let inventory ← r.defaulted "inventory" standard.inventory n.int?
  let unitAmount ← r.defaulted "unit_amount" standard.unitAmount n.int?
  let unitPrice ← r.defaulted "unit_price" standard.unitPrice n.int?
  let count ← r.defaulted "count" standard.count (n.word? 64)
  return ⟨credit, inventory, unitAmount, unitPrice, count⟩

def toJson (p : InvestorProfile) : JsonValue :=
  .ofFields [("credit", .ofInt p.credit), ("inventory", .ofInt p.inventory),
    ("unit_amount", .ofInt p.unitAmount), ("unit_price", .ofInt p.unitPrice),
    ("count", .ofNat p.count)]

end InvestorProfile

namespace AppSettings

def fieldNames : List String := ["log_level", "bank_id_prefix"]

def ofData? {V : Type} (n : DataNotation V) (v : V) : Option AppSettings := do
  let r ← n.fields? fieldNames v
  let logLevel ← r.defaulted "log_level" standard.logLevel n.string?
  let bankIdPrefix ← r.defaulted "bank_id_prefix" standard.bankIdPrefix n.string?
  return ⟨logLevel, bankIdPrefix⟩

def toJson (s : AppSettings) : JsonValue :=
  .ofFields [("log_level", .ofString s.logLevel), ("bank_id_prefix", .ofString s.bankIdPrefix)]

end AppSettings

namespace BenchConfig

def fieldNames : List String := ["target", "scoring", "timing", "investors", "settings"]

def ofData? {V : Type} (n : DataNotation V) (v : V) : Option BenchConfig := do
  let r ← n.fields? fieldNames v
  let target ← r.defaulted "target" standard.target (Target.ofData? n)
  let rewards ← r.defaulted "scoring" standard.rewards (Rewards.ofData? n)
  let timing ← r.defaulted "timing" standard.timing (Timing.ofData? n)
  let investors ← r.defaulted "investors" standard.investors fun v => do
    (← n.list? v).mapM (InvestorProfile.ofData? n)
  let settings ← r.defaulted "settings" standard.settings (AppSettings.ofData? n)
  return ⟨target, rewards, timing, investors, settings⟩

def toJson (c : BenchConfig) : JsonValue :=
  .ofFields [("target", c.target.toJson), ("scoring", c.rewards.toJson),
    ("timing", c.timing.toJson), ("investors", .ofList InvestorProfile.toJson c.investors),
    ("settings", c.settings.toJson)]

end BenchConfig

end TradingLoad
