import TradingLoad.Composite
import TradingLoad.Investor.State

namespace TradingLoad.Investor

/-- Room for the tasks of the first composite and a decision. -/
def startCapacity : Nat := 6

def startTasks : List Task := [.top, .info, .signup, .signin, .updateOrders]

/-- The first composite without a decision. An investor starts once. -/
def startUndecided (inv : Investor) : Investor × Except Failure (Composite Task) :=
  if inv.started then (inv, .error (.alreadyStarted inv.account))
  else ({ inv with started := true }, (Composite.empty startCapacity).addAll startTasks)

/-- The composite of a tick without a decision: a poll, then all that is queued. There is none for
an investor that has retired. -/
def nextUndecided (inv : Investor) (retired : Bool) :
    Investor × Except Failure (Option (Composite Task)) :=
  if retired then (inv, .ok none)
  else
    ({ inv with pending := [] },
      ((Composite.empty (2 + inv.pending.length)).addAll (.info :: inv.pending)).map some)

def start (inv : Investor) : Investor × Except Failure (Composite Task) :=
  let (inv, composite) := inv.startUndecided
  (inv, composite.bind (·.add .decision))

def next (inv : Investor) (retired : Bool) : Investor × Except Failure (Option (Composite Task)) :=
  let (inv, composite) := inv.nextUndecided retired
  (inv, composite.bind fun
    | none => .ok none
    | some c => (c.add .decision).map some)

end TradingLoad.Investor
