import TradingLoad.Proofs.Run.Alone

namespace TradingLoad

/-- A composite that the driver runs, and the world in which it begins. -/
structure Pass (σ : Type) where
  began : World σ
  composite : Composite Task

namespace Pass

variable {σ : Type} (env : Environment σ) (deadline : Nat) (p : Pass σ)

/-- The world in which the composite stops. -/
def ended : World σ := (p.began.runComposite env (some deadline) p.composite).1

def outcome : Checked (Option Composite.Report) :=
  (p.began.runComposite env (some deadline) p.composite).2

/-- What comes of the composite, if it ends before the time is up. -/
def report? : Option Composite.Report :=
  match p.outcome env deadline with
  | .ok report => report
  | .error _ => none

def isViolation : Bool := (p.report? env deadline).any Drive.isViolation

/-- The world that is left to the next pass. -/
def left : World σ :=
  if p.isViolation env deadline then (p.ended env deadline).retire env else p.ended env deadline

/-- The report with which the drive goes on behind a pass. -/
def next? (r : RunReport) : Option RunReport :=
  (p.report? env deadline).bind fun report => (r.add report).toOption

variable {env deadline p}

theorem report?_of_outcome {report : Option Composite.Report}
    (h : p.outcome env deadline = .ok report) : p.report? env deadline = report := by
  unfold report?
  rw [h]

theorem report?_of_fault {fault : Fault} (h : p.outcome env deadline = .error fault) :
    p.report? env deadline = none := by
  unfold report?
  rw [h]

theorem now_left : (p.left env deadline).now = (p.ended env deadline).now := by
  unfold left
  split <;> rfl

/-- A pass takes no longer than the deadline allows, and ends with it when it is cut. -/
theorem elapses_ended :
    p.began.now ≤ (p.ended env deadline).now ∧
      (p.ended env deadline).now ≤ max p.began.now deadline ∧
      (p.outcome env deadline = .ok none → deadline ≤ (p.ended env deadline).now) := by
  have taken : World.Elapses (some deadline) p.began (p.ended env deadline) ∧
      (p.outcome env deadline = .ok none → World.IsOver (some deadline) (p.ended env deadline)) :=
    World.elapses_runTasks .empty p.composite.tasks p.began
  refine ⟨taken.1.passes, taken.1.inTime deadline rfl, ?_⟩
  intro cut
  exact taken.2 cut deadline rfl

end Pass

theorem Composite.addAll_of_room {τ : Type} {c : Composite τ} {tasks : List τ}
    (room : c.tasks.length + tasks.length ≤ c.capacity) :
    c.addAll tasks = .ok { c with tasks := c.tasks ++ tasks } := by
  induction tasks generalizing c with
  | nil => simp [addAll, pure, Except.pure]
  | cons task tasks ih =>
    have both : c.tasks.length + (tasks.length + 1) ≤ c.capacity := room
    have added : c.add task = .ok { c with tasks := c.tasks ++ [task] } :=
      add_eq_ok_iff.mpr ⟨by omega, rfl⟩
    have left : (c.tasks ++ [task]).length + tasks.length ≤ c.capacity := by
      rw [List.length_append, List.length_singleton]
      omega
    have rest : ({ c with tasks := c.tasks ++ [task] } : Composite τ).addAll tasks =
        .ok { c with tasks := (c.tasks ++ [task]) ++ tasks } := ih left
    rw [List.append_assoc, List.singleton_append] at rest
    rw [← rest]
    simp only [addAll, List.foldlM_cons, added, bind, Except.bind]

namespace Investor

variable {inv : Investor}

/-- There is room for all that is queued. -/
theorem next_of_active (inv : Investor) :
    inv.next false = ({ inv with pending := [] },
      .ok (some ⟨2 + inv.pending.length, .info :: (inv.pending ++ [.decision])⟩)) := by
  have room : (Composite.empty (2 + inv.pending.length) : Composite Task).tasks.length +
      (Task.info :: inv.pending).length ≤ 2 + inv.pending.length := by
    show 0 + (inv.pending.length + 1) ≤ 2 + inv.pending.length
    omega
  have queued : (Composite.empty (2 + inv.pending.length)).addAll (.info :: inv.pending) =
      .ok (⟨2 + inv.pending.length, .info :: inv.pending⟩ : Composite Task) :=
    Composite.addAll_of_room room
  have last : (⟨2 + inv.pending.length, .info :: inv.pending⟩ : Composite Task).add .decision =
      .ok ⟨2 + inv.pending.length, .info :: (inv.pending ++ [.decision])⟩ := by
    apply Composite.add_eq_ok_iff.mpr
    refine ⟨?_, rfl⟩
    show inv.pending.length + 1 < 2 + inv.pending.length
    omega
  simp only [next, nextUndecided, Bool.false_eq_true, if_false, queued, Except.map, Except.bind,
    last]

theorem next_of_retired (inv : Investor) : inv.next true = (inv, .ok none) := rfl

theorem started_of_new {account : String} {profile : InvestorProfile} {rewards : Rewards}
    {timing : Timing} {source : Random.Stream} {inv : Investor}
    (made : Investor.new account profile rewards timing source = .ok inv) :
    inv.started = false := by
  obtain ⟨-, rfl⟩ := new_eq_ok_iff.mp made
  rfl

/-- A fresh investor starts. -/
theorem start_of_fresh (fresh : inv.started = false) :
    inv.start = ({ inv with started := true },
      .ok ⟨startCapacity, startTasks ++ [.decision]⟩) := by
  simp only [start, startUndecided, fresh, Bool.false_eq_true, if_false]
  rfl

end Investor

namespace Drive

variable {σ : Type} (env : Environment σ) (deadline : Nat)

/-- The passes of so many ticks at most, begun with a report. -/
def passesFrom : Nat → Ticker → World σ → RunReport → List (Pass σ)
  | 0, _, _, _ => []
  | ticks + 1, ticker, w, r =>
    match w.waitUntil (some deadline) (some ticker.due) with
    | (_, false) => []
    | (w, true) =>
      match w.investor.next (w.isRetired env) with
      | (investor, .ok (some composite)) =>
        let p : Pass σ := ⟨{ w with investor }, composite⟩
        match p.next? env deadline r with
        | none => [p]
        | some r => p :: passesFrom ticks (ticker.take w.now) (p.left env deadline) r
      | _ => []

/-- The passes of a drive, the first one first. -/
def passes (tick : Nat) (w : World σ) : List (Pass σ) :=
  match w.investor.start with
  | (_, .error _) => []
  | (investor, .ok composite) =>
    let p : Pass σ := ⟨{ w with investor }, composite⟩
    match p.next? env deadline (.new w.investor.account) with
    | none => [p]
    | some r =>
      match Ticker.start tick (p.left env deadline).now with
      | .error _ => [p]
      | .ok ticker =>
        p :: passesFrom env deadline (mostTicks tick (p.left env deadline).now deadline) ticker
          (p.left env deadline) r

/-- A tick comes, and the investor goes on with a composite. -/
structure Ticks (ticker : Ticker) (w v : World σ) (p : Pass σ) : Prop where
  waits : World.Waits (some deadline) w v
  came : v.now = max w.now ticker.due
  active : v.isRetired env = false
  next : v.investor.next false = (p.began.investor, .ok (some p.composite))
  began : p.began = { v with investor := p.began.investor }

/-- A pass that is the last one: a fault, or a composite that is cut. -/
inductive Closes (r : RunReport) (p : Pass σ) : World σ × Checked RunReport → Prop
  | faults {fault} (h : p.outcome env deadline = .error fault) :
      Closes r p (p.ended env deadline, .error fault)
  | cut (h : p.outcome env deadline = .ok none) : Closes r p (finish env (p.ended env deadline) r)
  | overflows {report fault} (h : p.outcome env deadline = .ok (some report))
      (add : r.add report = .error fault) : Closes r p (p.ended env deadline, .error fault)

/-- How a drive goes on from a ticker, with the passes that are still made. -/
inductive Goes : Ticker → World σ → RunReport → List (Pass σ) → World σ × Checked RunReport → Prop
  | ends {ticker w r v} (waits : World.Waits (some deadline) w v)
      (why : deadline ≤ v.now ∨ v.isRetired env) : Goes ticker w r [] (finish env v r)
  | closes {ticker w r v p result} (tick : Ticks env deadline ticker w v p)
      (h : Closes env deadline r p result) : Goes ticker w r [p] result
  | goesOn {ticker w r v p report r' ps result} (tick : Ticks env deadline ticker w v p)
      (h : p.outcome env deadline = .ok (some report)) (add : r.add report = .ok r')
      (rest : Goes (ticker.take v.now) (p.left env deadline) r' ps result) :
      Goes ticker w r (p :: ps) result

/-- The pass of the first composite. -/
structure Begins (w : World σ) (p : Pass σ) : Prop where
  began : p.began = { w with investor := { w.investor with started := true } }
  tasks : p.composite.tasks = Investor.startTasks ++ [.decision]

/-- How a drive goes, with its passes. -/
inductive Drives (tick : Nat) (w : World σ) : List (Pass σ) → World σ × Checked RunReport → Prop
  | closes {p result} (begins : Begins w p)
      (h : Closes env deadline (.new w.investor.account) p result) : Drives tick w [p] result
  | stuck {p report r} (begins : Begins w p) (h : p.outcome env deadline = .ok (some report))
      (add : RunReport.add (.new w.investor.account) report = .ok r) (zero : tick = 0) :
      Drives tick w [p] (p.left env deadline, .error .zeroPeriod)
  | goesOn {p report r ps result} (begins : Begins w p)
      (h : p.outcome env deadline = .ok (some report))
      (add : RunReport.add (.new w.investor.account) report = .ok r) (period : 1 ≤ tick)
      (rest : Goes env deadline ⟨tick, (p.left env deadline).now⟩ (p.left env deadline) r ps
        result) :
      Drives tick w (p :: ps) result

/-- What the driver does with a composite. -/
theorem step_cases (p : Pass σ) (r : RunReport) :
    (∃ fault, p.outcome env deadline = .error fault ∧ p.next? env deadline r = none ∧
      step env deadline p.began r p.composite = (p.ended env deadline, .error fault)) ∨
    (p.outcome env deadline = .ok none ∧ p.next? env deadline r = none ∧
      step env deadline p.began r p.composite = (p.ended env deadline, .ok (r, false))) ∨
    (∃ report fault, p.outcome env deadline = .ok (some report) ∧ r.add report = .error fault ∧
      p.next? env deadline r = none ∧
      step env deadline p.began r p.composite = (p.ended env deadline, .error fault)) ∨
    ∃ report r', p.outcome env deadline = .ok (some report) ∧ r.add report = .ok r' ∧
      p.next? env deadline r = some r' ∧
      step env deadline p.began r p.composite = (p.left env deadline, .ok (r', true)) := by
  have ran : p.began.runComposite env (some deadline) p.composite =
      (p.ended env deadline, p.outcome env deadline) := rfl
  unfold step
  rw [ran]
  cases h : p.outcome env deadline with
  | error fault =>
    refine .inl ⟨fault, rfl, ?_, rfl⟩
    rw [Pass.next?, Pass.report?_of_fault h]
    rfl
  | ok outcome =>
    have report : p.report? env deadline = outcome := Pass.report?_of_outcome h
    cases outcome with
    | none =>
      refine .inr (.inl ⟨rfl, ?_, rfl⟩)
      rw [Pass.next?, report]
      rfl
    | some report' =>
      have next : p.next? env deadline r = (r.add report').toOption := by
        rw [Pass.next?, report]
        rfl
      cases add : r.add report' with
      | error fault =>
        refine .inr (.inr (.inl ⟨report', fault, rfl, add, ?_, ?_⟩))
        · rw [next, add]
          rfl
        · simp only [add]
      | ok r' =>
        refine .inr (.inr (.inr ⟨report', r', rfl, add, ?_, ?_⟩))
        · rw [next, add]
          rfl
        · have violation : p.isViolation env deadline = isViolation report' := by
            rw [Pass.isViolation, report]
            rfl
          simp only [add, Pass.left, violation]

/-- What a tick brings: the end of the drive, or a pass with which the driver does as it does with
any composite. -/
theorem tick_cases (ticker : Ticker) (w : World σ) :
    (∃ v, World.Waits (some deadline) w v ∧ (deadline ≤ v.now ∨ v.isRetired env) ∧
      ∀ ticks r, passesFrom env deadline (ticks + 1) ticker w r = [] ∧
        loop env deadline (ticks + 1) ticker w r = finish env v r) ∨
    ∃ v p, Ticks env deadline ticker w v p ∧
      ∀ ticks r,
        passesFrom env deadline (ticks + 1) ticker w r =
          (match p.next? env deadline r with
          | none => [p]
          | some r =>
            p :: passesFrom env deadline ticks (ticker.take v.now) (p.left env deadline) r) ∧
        loop env deadline (ticks + 1) ticker w r =
          match step env deadline p.began r p.composite with
          | (w, .error fault) => (w, .error fault)
          | (w, .ok (r, false)) => finish env w r
          | (w, .ok (r, true)) => loop env deadline ticks (ticker.take v.now) w r := by
  cases hw : World.waitUntil (some deadline) (some ticker.due) w with
  | mk v come =>
    obtain ⟨waits, timeUp, moment⟩ := World.waits_waitUntil hw
    cases come with
    | false =>
      refine .inl ⟨v, waits, .inl (timeUp rfl deadline rfl), ?_⟩
      intro ticks r
      rw [passesFrom, loop, hw]
      exact ⟨rfl, rfl⟩
    | true =>
      obtain ⟨m, hm, now⟩ := moment rfl
      obtain rfl := Option.some.inj hm
      cases retired : v.isRetired env with
      | true =>
        refine .inl ⟨v, waits, .inr retired, ?_⟩
        intro ticks r
        rw [passesFrom, loop, hw]
        dsimp only
        rw [retired, Investor.next_of_retired]
        exact ⟨rfl, rfl⟩
      | false =>
        refine .inr ⟨v, ⟨{ v with investor := { v.investor with pending := [] } },
          ⟨2 + v.investor.pending.length, .info :: (v.investor.pending ++ [.decision])⟩⟩,
          ⟨waits, now, retired, Investor.next_of_active _, rfl⟩, ?_⟩
        intro ticks r
        rw [passesFrom, loop, hw]
        dsimp only
        rw [retired, Investor.next_of_active]
        exact ⟨rfl, rfl⟩

variable {env deadline}

theorem Closes.world {r : RunReport} {p : Pass σ} {u : World σ} {result : Checked RunReport}
    (h : Closes env deadline r p (u, result)) : u = p.ended env deadline := by
  cases h <;> rfl

theorem due_take (t : Ticker) (now : Nat) :
    t.due + t.period ≤ (t.take now).due ∧ (t.take now).period = t.period := by
  unfold Ticker.take
  split
  · exact ⟨Nat.le_refl _, rfl⟩
  · next late =>
    refine ⟨?_, rfl⟩
    show t.due + t.period ≤ now + t.period
    omega

theorem Ticks.now_left {ticker : Ticker} {w v : World σ} {p : Pass σ}
    (tick : Ticks env deadline ticker w v p) :
    ticker.due ≤ max w.now deadline ∧ w.now ≤ (p.left env deadline).now ∧
      (p.left env deadline).now ≤ max w.now deadline := by
  obtain ⟨later, inTime, -⟩ := @Pass.elapses_ended σ env deadline p
  have waited := tick.waits.inTime deadline rfl
  have passes := tick.waits.passes
  have came := tick.came
  have began : p.began.now = v.now := by rw [tick.began]
  rw [Pass.now_left]
  omega

/-- The driver goes on tick by tick. It never stops for want of ticks: those that are left take the
ticker past any moment that can come. -/
theorem goes_loop {ticks : Nat} {ticker : Ticker} {w : World σ} {r : RunReport}
    (enough : max w.now deadline < ticker.due + ticks * ticker.period) :
    Goes env deadline ticker w r (passesFrom env deadline (ticks + 1) ticker w r)
      (loop env deadline (ticks + 1) ticker w r) := by
  induction ticks generalizing ticker w r with
  | zero =>
    rcases tick_cases env deadline ticker w with
      ⟨v, waits, why, stop⟩ | ⟨v, p, tick, -⟩
    · rw [(stop 0 r).1, (stop 0 r).2]
      exact .ends waits why
    · have due := tick.now_left.1
      omega
  | succ ticks ih =>
    rcases tick_cases env deadline ticker w with
      ⟨v, waits, why, stop⟩ | ⟨v, p, tick, goes⟩
    · rw [(stop (ticks + 1) r).1, (stop (ticks + 1) r).2]
      exact .ends waits why
    · rw [(goes (ticks + 1) r).1, (goes (ticks + 1) r).2]
      rcases step_cases env deadline p r with
        ⟨fault, h, next, step⟩ | ⟨h, next, step⟩ | ⟨report, fault, h, add, next, step⟩ |
          ⟨report, r', h, add, next, step⟩
      · rw [next, step]
        exact .closes tick (.faults h)
      · rw [next, step]
        exact .closes tick (.cut h)
      · rw [next, step]
        exact .closes tick (.overflows h add)
      · rw [next, step]
        obtain ⟨-, -, inTime⟩ := tick.now_left
        obtain ⟨later, period⟩ := due_take ticker v.now
        have less : max (p.left env deadline).now deadline <
            (ticker.take v.now).due + ticks * (ticker.take v.now).period := by
          rw [Nat.succ_mul] at enough
          rw [period]
          omega
        exact .goesOn tick h add (ih less)

theorem drives_run (tick : Nat) {w : World σ} (fresh : w.investor.started = false) :
    Drives env deadline tick w (passes env deadline tick w) (run env tick deadline w) := by
  have starts := Investor.start_of_fresh fresh
  unfold passes run
  rw [starts]
  simp only
  generalize hp : (⟨{ w with investor := { w.investor with started := true } },
    ⟨Investor.startCapacity, Investor.startTasks ++ [.decision]⟩⟩ : Pass σ) = p
  have begins : Begins w p := by
    rw [← hp]
    exact ⟨rfl, rfl⟩
  have first : step env deadline { w with investor := { w.investor with started := true } }
      (.new w.investor.account) ⟨Investor.startCapacity, Investor.startTasks ++ [.decision]⟩ =
      step env deadline p.began (.new w.investor.account) p.composite := by
    rw [← hp]
  rw [first]
  rcases step_cases env deadline p (.new w.investor.account) with
    ⟨fault, h, next, step⟩ | ⟨h, next, step⟩ | ⟨report, fault, h, add, next, step⟩ |
      ⟨report, r', h, add, next, step⟩
  · rw [next, step]
    exact .closes begins (.faults h)
  · rw [next, step]
    exact .closes begins (.cut h)
  · rw [next, step]
    exact .closes begins (.overflows h add)
  · rw [next, step]
    simp only
    by_cases zero : tick = 0
    · have stuck : Ticker.start tick (p.left env deadline).now = .error .zeroPeriod := if_pos zero
      rw [stuck]
      exact .stuck begins h add zero
    · have started : Ticker.start tick (p.left env deadline).now =
          .ok ⟨tick, (p.left env deadline).now⟩ := if_neg zero
      rw [started]
      refine .goesOn begins h add (by omega) (goes_loop ?_)
      -- the ticks after the first one reach beyond the deadline
      have whole := Nat.div_add_mod (deadline - (p.left env deadline).now) tick
      have rest := Nat.mod_lt (deadline - (p.left env deadline).now) (Nat.pos_of_ne_zero zero)
      show max _ _ < (p.left env deadline).now +
        ((deadline - (p.left env deadline).now) / tick + 1) * tick
      rw [Nat.succ_mul, Nat.mul_comm]
      omega

end Drive

end TradingLoad
