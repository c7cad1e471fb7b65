import TradingLoad.Failure
import TradingLoad.Ledger
import TradingLoad.Text.Quoted

namespace TradingLoad

/-- A chain of named tasks with room for a fixed number of them. -/
structure Composite (τ : Type) where
  capacity : Nat
  tasks : List τ

namespace Composite

variable {σ τ : Type}

/-- A composite to which tasks are added. Its room is only a limit here: no memory is laid out for
the tasks, so that any number will do, also one for which no list could have room. -/
def empty (capacity : Nat) : Composite τ := ⟨capacity, []⟩

/-- Appends a task while there is room. -/
def add (c : Composite τ) (task : τ) : Except Failure (Composite τ) :=
  if c.tasks.length < c.capacity then .ok { c with tasks := c.tasks ++ [task] }
  else .error (.compositeFull c.capacity)

theorem add_eq_ok_iff {c d : Composite τ} {task : τ} :
    c.add task = .ok d ↔
      c.tasks.length < c.capacity ∧ d = { c with tasks := c.tasks ++ [task] } := by
  rw [add]
  split
  · next h => simp [h, eq_comm]
  · next h => simp [h]

def addAll (c : Composite τ) (tasks : List τ) : Except Failure (Composite τ) :=
  tasks.foldlM add c

/-- How a task came to its end. -/
inductive Ending where
  /-- The time was up while the task had to wait. -/
  | cut
  | ended (result : Except Failure Nat)

/-- What came of a composite: the tasks that succeeded and their scores, and the failure of the one
that did not. -/
structure Report where
  score : Nat
  completed : Nat
  failure : Option (String × Failure)

namespace Report

def empty : Report := ⟨0, 0, none⟩

def isSuccess (r : Report) : Bool := r.failure.isNone

/-- The score of a composite without a failure, else the failure. -/
def toResult (r : Report) : Except Failure Nat :=
  match r.failure with
  | none => .ok r.score
  | some (_, failure) => .error failure

end Report

/-- Performs tasks one after another. There is no report when the time was up before the last one
ended. -/
def runTasks (name : τ → String) (perform : σ → τ → σ × Checked Ending) :
    Report → List τ → σ → σ × Checked (Option Report)
  | r, [], s => (s, .ok (some r))
  | r, task :: tasks, s =>
    match perform s task with
    | (s, .error fault) => (s, .error fault)
    | (s, .ok .cut) => (s, .ok none)
    | (s, .ok (.ended (.error failure))) =>
      (s, .ok (some { r with failure := some (name task, failure) }))
    | (s, .ok (.ended (.ok score))) =>
      match Checked.addNat r.score score with
      | .error fault => (s, .error fault)
      | .ok total =>
        runTasks name perform { r with score := total, completed := r.completed + 1 } tasks s

def run (name : τ → String) (perform : σ → τ → σ × Checked Ending) (c : Composite τ) (s : σ) :
    σ × Checked (Option Report) :=
  runTasks name perform .empty c.tasks s

/-- A line that shows a composite to a reader of diagnostics. -/
def describe (name : τ → String) (c : Composite τ) : String :=
  let task (t : τ) : String := "Task \x7b name: " ++ Text.quote (name t) ++ " \x7d"
  "SerialTask \x7b tasks: [" ++ ", ".intercalate (c.tasks.map task) ++ "], capacity: "
    ++ Text.decimal c.capacity ++ " \x7d"

end Composite

end TradingLoad
