import TradingLoad.Schedule.World

namespace TradingLoad

/-- The beat of the ticks. A tick taken late by more than a grace time moves those after it. -/
structure Ticker where
  period : Nat
  /-- The moment of the next tick. -/
  due : Nat
  deriving DecidableEq, Repr

namespace Ticker

/-- A ticker whose first tick is due at once. -/
def start (period now : Nat) : Checked Ticker :=
  if period = 0 then .error .zeroPeriod else .ok ⟨period, now⟩

/-- So late may a tick be without consequence for the next one. -/
def grace : Nat := 5

/-- The ticker after its tick was taken. -/
def take (t : Ticker) (now : Nat) : Ticker :=
  if now ≤ t.due + grace then { t with due := t.due + t.period }
  else { t with due := now + t.period }

end Ticker

/-- What an investor has achieved in a run. -/
structure RunReport where
  account : String
  score : Nat
  /-- Tasks that succeeded. -/
  completed : Nat
  /-- Composites that failed. -/
  errors : Nat
  /-- Composites that failed because the books differ. -/
  violations : Nat
  retired : Bool
  /-- The tasks that failed, and why, the first one first. -/
  incidents : List (String × Failure)
  deriving DecidableEq, Repr

namespace RunReport

def new (account : String) : RunReport :=
  { account, score := 0, completed := 0, errors := 0, violations := 0, retired := false,
    incidents := [] }

/-- Adds what came of a composite. -/
def add (r : RunReport) (c : Composite.Report) : Checked RunReport := do
  let score ← Checked.addNat r.score c.score
  let r := { r with score, completed := r.completed + c.completed }
  return match c.failure with
    | none => r
    | some (task, failure) =>
      { r with
        errors := r.errors + 1
        violations := r.violations + (if failure.isConsistencyViolation then 1 else 0)
        incidents := r.incidents ++ [(task, failure)] }

end RunReport

namespace Drive

variable {σ : Type}

/-- The books of investor and exchange differ. -/
def isViolation (c : Composite.Report) : Bool := c.failure.any (·.2.isConsistencyViolation)

/-- Runs a composite and adds it to the report; `false` when the time was up before its end. -/
def step (env : Environment σ) (deadline : Nat) (w : World σ) (r : RunReport)
    (composite : Composite Task) : World σ × Checked (RunReport × Bool) :=
  match w.runComposite env (some deadline) composite with
  | (w, .error fault) => (w, .error fault)
  | (w, .ok none) => (w, .ok (r, false))
  | (w, .ok (some report)) =>
    match r.add report with
    | .error fault => (w, .error fault)
    | .ok r => (if isViolation report then w.retire env else w, .ok (r, true))

/-- The end of a run. -/
def finish (env : Environment σ) (w : World σ) (r : RunReport) : World σ × Checked RunReport :=
  (w, .ok { r with retired := w.isRetired env })

/-- One composite a tick, for so many ticks at most. -/
def loop (env : Environment σ) (deadline : Nat) :
    Nat → Ticker → World σ → RunReport → World σ × Checked RunReport
  | 0, _, w, r => finish env w r
  | ticks + 1, ticker, w, r =>
    match w.waitUntil (some deadline) (some ticker.due) with
    | (w, false) => finish env w r
    | (w, true) =>
      let ticker := ticker.take w.now
      match w.investor.next (w.isRetired env) with
      | (investor, .ok none) => finish env { w with investor } r
      | (investor, .error _) => finish env { w with investor } { r with errors := r.errors + 1 }
      | (investor, .ok (some composite)) =>
        match step env deadline { w with investor } r composite with
        | (w, .error fault) => (w, .error fault)
        | (w, .ok (r, false)) => finish env w r
        | (w, .ok (r, true)) => loop env deadline ticks ticker w r

/-- Two ticks are at least a period apart, so no more of them come before the deadline. -/
def mostTicks (period now deadline : Nat) : Nat := (deadline - now) / period + 2

/-- Drives an investor until the deadline. -/
def run (env : Environment σ) (tick deadline : Nat) (w : World σ) : World σ × Checked RunReport :=
  let r := RunReport.new w.investor.account
  match w.investor.start with
  | (investor, .error _) => ({ w with investor }, .ok r)
  | (investor, .ok composite) =>
    match step env deadline { w with investor } r composite with
    | (w, .error fault) => (w, .error fault)
    | (w, .ok (r, false)) => finish env w r
    | (w, .ok (r, true)) =>
      match Ticker.start tick w.now with
      | .error fault => (w, .error fault)
      | .ok ticker => loop env deadline (mostTicks tick w.now deadline) ticker w r

end Drive

end TradingLoad
