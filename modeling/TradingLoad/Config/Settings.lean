import TradingLoad.Fault

namespace TradingLoad

/-- The exchange under test. -/
structure Target where
  baseUrl : String
  requestTimeoutMs : Nat
  /-- So many requests in a row without an answer retire an investor; 0 stands for no limit. -/
  maxTransportFailures : Nat
  deriving DecidableEq, Repr

def Target.standard : Target :=
  { baseUrl := "http://localhost:5000", requestTimeoutMs := 5000, maxTransportFailures := 10 }

/-- What a successful call is worth. -/
structure Rewards where
  top : Nat
  signup : Nat
  signin : Nat
  info : Nat
  getOrders : Nat
  addOrder : Nat
  deleteOrder : Nat
  deriving DecidableEq, Repr

def Rewards.standard : Rewards :=
  { top := 1, signup := 1, signin := 1, info := 1, getOrders := 1, addOrder := 5, deleteOrder := 5 }

structure Timing where
  /-- The number of open orders that an investor may have. -/
  orderCap : Nat
  pollingIntervalMs : Nat
  orderUpdateIntervalMs : Nat
  benchmarkTimeSecs : Nat
  tickIntervalMs : Nat
  /-- A random delay before sign-up and sign-in stays below it; 0 stands for no delay. -/
  signupJitterMs : Nat
  deriving DecidableEq, Repr

namespace Timing

def standard : Timing :=
  { orderCap := 5, pollingIntervalMs := 500, orderUpdateIntervalMs := 2000,
    benchmarkTimeSecs := 60, tickIntervalMs := 100, signupJitterMs := 100 }

/-- How many orders one investor can place in a run. -/
def maxOrders (t : Timing) : Checked Nat := do
  let milliseconds ← Checked.mulNat t.benchmarkTimeSecs 1000
  Checked.addNat (milliseconds / max t.orderUpdateIntervalMs 1) 1

end Timing

/-- The endowment and the habits of an investor. -/
structure InvestorProfile where
  credit : Int
  inventory : Int
  unitAmount : Int
  unitPrice : Int
  /-- How many investors have this profile. -/
  count : Nat
  deriving DecidableEq, Repr

def InvestorProfile.standard : InvestorProfile :=
  { credit := 10000, inventory := 0, unitAmount := 5, unitPrice := 100, count := 1 }

structure AppSettings where
  logLevel : String
  bankIdPrefix : String
  deriving DecidableEq, Repr

def AppSettings.standard : AppSettings := { logLevel := "info", bankIdPrefix := "bench" }

structure BenchConfig where
  target : Target
  rewards : Rewards
  timing : Timing
  investors : List InvestorProfile
  settings : AppSettings
  deriving DecidableEq, Repr

namespace BenchConfig

def standard : BenchConfig :=
  { target := .standard, rewards := .standard, timing := .standard, investors := [],
    settings := .standard }

/-- The profiles of the investors: where there are none, one of the standard kind. -/
def investorProfiles (c : BenchConfig) : List InvestorProfile :=
  if c.investors = [] then [.standard] else c.investors

end BenchConfig

/-- A duration as whole seconds and nanoseconds. -/
def secondsAndNanos (milliseconds : Nat) : Nat × Nat :=
  (milliseconds / 1000, milliseconds % 1000 * 1000000)

end TradingLoad
