import TradingLoad.Composite
import TradingLoad.Investor.Lifecycle

namespace TradingLoad

/-- What an investor depends on from outside. -/
structure Environment (σ : Type) where
  exchange : Exchange σ
  /-- The civil time at a moment. -/
  wallClock : Nat → Timestamp
  /-- The random delays, one after another. -/
  delays : Nat → Nat

/-- One investor and one exchange in time, which is counted in milliseconds and passes only while a
task waits. -/
structure World (σ : Type) where
  investor : Investor
  exchange : σ
  now : Nat
  /-- How many random delays have been drawn. -/
  drawn : Nat

namespace World

variable {σ : Type}

def new (investor : Investor) (exchange : σ) : World σ :=
  { investor, exchange, now := 0, drawn := 0 }

def isRetired (env : Environment σ) (w : World σ) : Bool := env.exchange.isRetired w.exchange

def retire (env : Environment σ) (w : World σ) : World σ :=
  { w with exchange := env.exchange.retire w.exchange }

/-- A moment that may be later than any. -/
abbrev Deadline := Option Nat

/-- The moment is not after the deadline. -/
def meets (deadline : Deadline) (moment : Nat) : Bool :=
  match deadline with
  | none => true
  | some d => moment ≤ d

/-- The deadline has come. -/
def isUp (deadline : Deadline) (now : Nat) : Bool :=
  match deadline with
  | none => false
  | some d => d ≤ now

/-- Waits until a moment, `none` for ever, and tells whether it came before the time was up. A wait
that ends with the deadline itself is not cut. -/
def waitUntil (deadline : Deadline) (moment : Option Nat) (w : World σ) : World σ × Bool :=
  match moment with
  | some m =>
    if m ≤ w.now then (w, true)
    else if isUp deadline w.now then (w, false)
    else if meets deadline m then ({ w with now := m }, true)
    else ({ w with now := deadline.getD w.now }, false)
  | none => ({ w with now := max w.now (deadline.getD w.now) }, false)

/-- The length of the random delay of a task; none if the task does not start with one. -/
def delayOf (env : Environment σ) (w : World σ) (task : Task) : Option Nat :=
  if task.isSpread ∧ 0 < w.investor.timing.signupJitterMs then
    some (env.delays w.drawn % w.investor.timing.signupJitterMs)
  else none

/-- Waits for as long as the random delay of a task. -/
def spread (env : Environment σ) (deadline : Deadline) (w : World σ) (task : Task) :
    World σ × Bool :=
  match w.delayOf env task with
  | none => (w, true)
  | some delay => waitUntil deadline (some (w.now + delay)) { w with drawn := w.drawn + 1 }

/-- Makes a call: the exchange takes note of it. -/
def ask (env : Environment σ) (w : World σ) (c : Call) : World σ :=
  { w with exchange := env.exchange.note w.now c w.exchange }

/-- Deals with the reply to a call. -/
def settle (env : Environment σ) (w : World σ) (c : Call) : World σ × Outcome Nat :=
  let (reply, exchange) := env.exchange.reply c w.exchange
  let (investor, outcome) := w.investor.receive w.now (env.wallClock w.now) c reply
  ({ w with investor, exchange }, outcome)

/-- Makes a call, waits and deals with the reply. -/
def perform (env : Environment σ) (deadline : Deadline) (w : World σ) (c : Call) :
    World σ × Checked Composite.Ending :=
  let w := w.ask env c
  match waitUntil deadline ((env.exchange.latency w.exchange c).map (w.now + ·)) w with
  | (w, false) => (w, .ok .cut)
  | (w, true) =>
    let (w, outcome) := w.settle env c
    (w, outcome.map .ended)

/-- Runs one task while no other one runs, so that all regions are free. -/
def runTask (env : Environment σ) (deadline : Deadline) (w : World σ) (task : Task) :
    World σ × Checked Composite.Ending :=
  match w.spread env deadline task with
  | (w, false) => (w, .ok .cut)
  | (w, true) =>
    match w.investor.begin (w.isRetired env) w.now task with
    | .error fault => (w, .error fault)
    | .ok (investor, .done score) => ({ w with investor }, .ok (.ended (.ok score)))
    | .ok (investor, .ask c) => perform env deadline { w with investor } c

def runComposite (env : Environment σ) (deadline : Deadline) (w : World σ) (c : Composite Task) :
    World σ × Checked (Option Composite.Report) :=
  c.run Task.name (runTask env deadline) w

end World

end TradingLoad
