import TradingLoad.Proofs.Run.Tasks
import TradingLoad.Schedule.Drive

namespace TradingLoad

/-- What passes between an investor and its exchange. -/
inductive Dealing where
  | asked (now : Nat) (c : Call)
  /-- A reply, at the moment at which it has come. -/
  | replied (now : Nat) (c : Call) (r : c.Reply)
  | retired

namespace Dealing

def isAsked : Dealing → Bool
  | asked _ _ => true
  | _ => false

/-- When a placement was accepted. -/
def placedAt? : Dealing → Option Nat
  | replied now (.addOrder _ _ _) (.ok _) => some now
  | _ => none

end Dealing

/-- An exchange and what has passed so far, the latest first. -/
structure Recorded (σ : Type) where
  exchange : σ
  /-- When the reply to the latest call comes. -/
  due : Nat
  record : List Dealing

variable {σ : Type}

/-- What a record has done to the ledger of the investor. -/
def operations (env : Environment σ) (record : List Dealing) : List Ledger.Operation :=
  record.filterMap fun
    | .replied now c r => Investor.operationOf (env.wallClock now) c r
    | _ => none

@[simp] theorem operations_asked (env : Environment σ) (now : Nat) (c : Call)
    (record : List Dealing) : operations env (.asked now c :: record) = operations env record := rfl

theorem operations_replied (env : Environment σ) (now : Nat) (c : Call) (r : c.Reply)
    (record : List Dealing) :
    operations env (.replied now c r :: record) =
      (Investor.operationOf (env.wallClock now) c r).toList ++ operations env record := by
  unfold operations
  cases h : Investor.operationOf (env.wallClock now) c r with
  | none => exact List.filterMap_cons_none h
  | some op => exact List.filterMap_cons_some h

def Exchange.recorded (x : Exchange σ) : Exchange (Recorded σ) where
  note now c s :=
    let exchange := x.note now c s.exchange
    ⟨exchange, now + (x.latency exchange c).getD 0, .asked now c :: s.record⟩
  latency s c := x.latency s.exchange c
  reply c s :=
    let (r, exchange) := x.reply c s.exchange
    (r, ⟨exchange, s.due, .replied s.due c r :: s.record⟩)
  isRetired s := x.isRetired s.exchange
  retire s := { s with exchange := x.retire s.exchange, record := .retired :: s.record }

def Environment.recorded (env : Environment σ) : Environment (Recorded σ) :=
  { exchange := env.exchange.recorded, wallClock := env.wallClock, delays := env.delays }

namespace World

/-- The world as it is, with an empty record. -/
def recorded (w : World σ) : World (Recorded σ) :=
  { investor := w.investor, exchange := ⟨w.exchange, w.now, []⟩, now := w.now, drawn := w.drawn }

/-- The world without the record. -/
def plain (w : World (Recorded σ)) : World σ :=
  { investor := w.investor, exchange := w.exchange.exchange, now := w.now, drawn := w.drawn }

variable (env : Environment σ) (deadline : Deadline)

theorem plain_recorded (w : World σ) : w.recorded.plain = w := rfl

theorem waitUntil_plain (moment : Option Nat) (w : World (Recorded σ)) :
    waitUntil deadline moment w.plain =
      ((waitUntil deadline moment w).1.plain, (waitUntil deadline moment w).2) := by
  cases moment with
  | none => rfl
  | some m =>
    have same : w.plain.now = w.now := rfl
    unfold waitUntil
    simp only [same]
    by_cases past : m ≤ w.now
    · rw [if_pos past, if_pos past]
    · rw [if_neg past, if_neg past]
      cases isUp deadline w.now with
      | true => rfl
      | false => cases meets deadline m <;> rfl

theorem spread_plain (w : World (Recorded σ)) (task : Task) :
    spread env deadline w.plain task =
      ((spread env.recorded deadline w task).1.plain,
        (spread env.recorded deadline w task).2) := by
  have same : w.plain.delayOf env task = w.delayOf env.recorded task := rfl
  unfold spread
  rw [same]
  cases w.delayOf env.recorded task with
  | none => rfl
  | some delay => exact waitUntil_plain deadline _ { w with drawn := w.drawn + 1 }

theorem perform_plain (w : World (Recorded σ)) (c : Call) :
    perform env deadline w.plain c =
      ((perform env.recorded deadline w c).1.plain, (perform env.recorded deadline w c).2) := by
  have asked : w.plain.ask env c = (w.ask env.recorded c).plain := rfl
  have latency : env.exchange.latency (w.ask env.recorded c).plain.exchange c =
      env.recorded.exchange.latency (w.ask env.recorded c).exchange c := rfl
  have now : (w.ask env.recorded c).plain.now = (w.ask env.recorded c).now := rfl
  unfold perform
  simp only [asked, latency, now, waitUntil_plain]
  cases waitUntil deadline ((env.recorded.exchange.latency (w.ask env.recorded c).exchange c).map
      ((w.ask env.recorded c).now + ·)) (w.ask env.recorded c) with
  | mk u come => cases come <;> rfl

theorem runTask_plain (w : World (Recorded σ)) (task : Task) :
    runTask env deadline w.plain task =
      ((runTask env.recorded deadline w task).1.plain,
        (runTask env.recorded deadline w task).2) := by
  unfold runTask
  rw [spread_plain]
  cases spread env.recorded deadline w task with
  | mk u come =>
    cases come with
    | false => rfl
    | true =>
      have investor : u.plain.investor = u.investor := rfl
      have retired : u.plain.isRetired env = u.isRetired env.recorded := rfl
      have now : u.plain.now = u.now := rfl
      simp only [investor, retired, now]
      cases u.investor.begin (u.isRetired env.recorded) u.now task with
      | error fault => rfl
      | ok begun =>
        obtain ⟨investor, opening⟩ := begun
        cases opening with
        | done score => rfl
        | ask c => exact perform_plain env deadline { u with investor } c

theorem runTasks_plain (r : Composite.Report) (tasks : List Task) (w : World (Recorded σ)) :
    Composite.runTasks Task.name (runTask env deadline) r tasks w.plain =
      ((Composite.runTasks Task.name (runTask env.recorded deadline) r tasks w).1.plain,
        (Composite.runTasks Task.name (runTask env.recorded deadline) r tasks w).2) := by
  induction tasks generalizing r w with
  | nil => rfl
  | cons task tasks ih =>
    unfold Composite.runTasks
    rw [runTask_plain]
    cases runTask env.recorded deadline w task with
    | mk u ending =>
      rcases ending with fault | (_ | (failure | score))
      · rfl
      · rfl
      · rfl
      · simp only
        cases Checked.addNat r.score score with
        | error fault => rfl
        | ok total => exact ih { r with score := total, completed := r.completed + 1 } u

theorem runComposite_plain (w : World (Recorded σ)) (c : Composite Task) :
    runComposite env deadline w.plain c =
      ((runComposite env.recorded deadline w c).1.plain,
        (runComposite env.recorded deadline w c).2) :=
  runTasks_plain env deadline .empty c.tasks w

/-- What passes while a composite is run. -/
def dealings (w : World σ) (c : Composite Task) : List Dealing :=
  (runComposite env.recorded deadline w.recorded c).1.exchange.record

/-- What passes while a task is run. -/
def dealingsOf (w : World σ) (task : Task) : List Dealing :=
  (runTask env.recorded deadline w.recorded task).1.exchange.record

end World

namespace Drive

variable (env : Environment σ) (deadline : Nat)

theorem step_plain (w : World (Recorded σ)) (r : RunReport) (c : Composite Task) :
    step env deadline w.plain r c =
      ((step env.recorded deadline w r c).1.plain, (step env.recorded deadline w r c).2) := by
  unfold step
  rw [World.runComposite_plain]
  cases w.runComposite env.recorded (some deadline) c with
  | mk u outcome =>
    match outcome with
    | .error fault => rfl
    | .ok none => rfl
    | .ok (some report) =>
      simp only
      cases r.add report with
      | error fault => rfl
      | ok r' =>
        simp only
        split <;> rfl

theorem loop_plain (ticks : Nat) (ticker : Ticker) (w : World (Recorded σ)) (r : RunReport) :
    loop env deadline ticks ticker w.plain r =
      ((loop env.recorded deadline ticks ticker w r).1.plain,
        (loop env.recorded deadline ticks ticker w r).2) := by
  induction ticks generalizing ticker w r with
  | zero => rfl
  | succ ticks ih =>
    unfold loop
    rw [World.waitUntil_plain]
    cases World.waitUntil (some deadline) (some ticker.due) w with
    | mk u come =>
      cases come with
      | false => rfl
      | true =>
        simp only
        have same : u.plain.investor.next (u.plain.isRetired env) =
            u.investor.next (u.isRetired env.recorded) := rfl
        rw [same]
        cases u.investor.next (u.isRetired env.recorded) with
        | mk investor made =>
          match made with
          | .error failure => rfl
          | .ok none => rfl
          | .ok (some composite) =>
            have stepped := step_plain env deadline { u with investor } r composite
            have there : ({ u.plain with investor } : World σ) =
                ({ u with investor } : World (Recorded σ)).plain := rfl
            simp only
            rw [there, stepped]
            cases step env.recorded deadline { u with investor } r composite with
            | mk v result =>
              match result with
              | .error fault => rfl
              | .ok (r', false) => rfl
              | .ok (r', true) => exact ih (ticker.take u.now) v r'

/-- A record does not disturb a drive. -/
theorem run_plain (tick : Nat) (w : World (Recorded σ)) :
    run env tick deadline w.plain =
      ((run env.recorded tick deadline w).1.plain, (run env.recorded tick deadline w).2) := by
  unfold run
  have same : w.plain.investor = w.investor := rfl
  rw [same]
  simp only
  cases w.investor.start with
  | mk investor made =>
    match made with
    | .error failure => rfl
    | .ok composite =>
      have stepped := step_plain env deadline { w with investor }
        (RunReport.new w.investor.account) composite
      have there : ({ w.plain with investor } : World σ) =
          ({ w with investor } : World (Recorded σ)).plain := rfl
      simp only
      rw [there, stepped]
      cases step env.recorded deadline { w with investor } (RunReport.new w.investor.account)
          composite with
      | mk v result =>
        match result with
        | .error fault => rfl
        | .ok (r', false) => rfl
        | .ok (r', true) =>
          have now : v.plain.now = v.now := rfl
          simp only
          rw [now]
          cases Ticker.start tick v.now with
          | error fault => rfl
          | ok ticker => exact loop_plain env deadline _ ticker v r'

/-- What passes while an investor is driven. -/
def record (tick : Nat) (w : World σ) : List Dealing :=
  (run env.recorded tick deadline w.recorded).1.exchange.record

end Drive

end TradingLoad
