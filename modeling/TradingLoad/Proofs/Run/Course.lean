import TradingLoad.Exchange.Scripted
import TradingLoad.Proofs.Run.Tasks
import TradingLoad.Schedule.World

namespace TradingLoad

/-- What a course shows. -/
inductive Event where
  /-- A call is made. -/
  | asked (c : Call)
  /-- A reply has come. The result is that of the task that made the call; when it is a failure, the
  tasks after it are dropped. -/
  | answered (at_ : Timestamp) (c : Call) (r : c.Reply) (result : Except Failure Nat)
      (dropped : List Task)

/-- What an event does to the ledger. -/
def Event.operation : Event → Option Ledger.Operation
  | .asked _ => none
  | .answered at_ c r _ _ => Investor.operationOf at_ c r

/-- An investor and its exchange between two steps. -/
structure Course (σ : Type) where
  world : World σ
  /-- The call that the task in hand waits for. -/
  calling : Option Call
  /-- The tasks of the composite in hand that have not begun. -/
  agenda : List Task

namespace Course

variable {σ : Type}

/-- A course at the beginning of a composite. -/
def opening (w : World σ) (investor : Investor) (tasks : List Task) : Course σ :=
  ⟨{ w with investor }, none, tasks⟩

/-- The tasks that are left to do when a task has ended. -/
def remaining (tasks : List Task) : Except Failure Nat → List Task
  | .ok _ => tasks
  | .error _ => []

/-- The tasks that are not run because a task has failed. -/
def dropped (tasks : List Task) : Except Failure Nat → List Task
  | .ok _ => []
  | .error _ => tasks

/-- One step and what it shows. A reply may take any time; `stirs` tells what the exchange may do on
its own. -/
inductive Step (env : Environment σ) (stirs : σ → σ → Prop) :
    Course σ → Option Event → Course σ → Prop
  /-- Time passes, and a random delay may be drawn. -/
  | wait {w calling agenda} (now drawn : Nat) (h : w.now ≤ now) :
      Step env stirs ⟨w, calling, agenda⟩ none ⟨{ w with now, drawn }, calling, agenda⟩
  /-- The exchange does something on its own. -/
  | stir {w calling agenda} (exchange : σ) (h : stirs w.exchange exchange) :
      Step env stirs ⟨w, calling, agenda⟩ none ⟨{ w with exchange }, calling, agenda⟩
  /-- The composite of a tick. -/
  | next {w investor c} (h : w.investor.next (w.isRetired env) = (investor, .ok (some c))) :
      Step env stirs ⟨w, none, []⟩ none (opening w investor c.tasks)
  /-- A task that is over without a call. -/
  | done {w task tasks investor score}
      (h : w.investor.begin (w.isRetired env) w.now task = .ok (investor, .done score)) :
      Step env stirs ⟨w, none, task :: tasks⟩ none ⟨{ w with investor }, none, tasks⟩
  /-- A task that makes its call. -/
  | ask {w task tasks investor c}
      (h : w.investor.begin (w.isRetired env) w.now task = .ok (investor, .ask c)) :
      Step env stirs ⟨w, none, task :: tasks⟩ (some (.asked c))
        ⟨{ w with investor }.ask env c, some c, tasks⟩
  /-- A reply, with which the task succeeds or fails. -/
  | answer {w u c tasks result} (h : w.settle env c = (u, .ok result)) :
      Step env stirs ⟨w, some c, tasks⟩
        (some (.answered (env.wallClock w.now) c (env.exchange.reply c w.exchange).1 result
          (dropped tasks result)))
        ⟨u, none, remaining tasks result⟩

/-- Steps in a row and their history, the latest event first. -/
inductive Steps (env : Environment σ) (stirs : σ → σ → Prop) (s : Course σ) :
    List Event → Course σ → Prop
  | refl : Steps env stirs s [] s
  | step {history event t u} (before : Steps env stirs s history t)
      (last : Step env stirs t event u) : Steps env stirs s (event.toList ++ history) u

/-- The investor of a world starts, and takes steps. -/
def Runs (env : Environment σ) (stirs : σ → σ → Prop) (w : World σ) (history : List Event)
    (s : Course σ) : Prop :=
  ∃ investor c, w.investor.start = (investor, .ok c) ∧
    Steps env stirs (opening w investor c.tasks) history s

variable {env : Environment σ} {stirs : σ → σ → Prop}

theorem Steps.single {s t : Course σ} {event : Option Event} (h : Step env stirs s event t) :
    Steps env stirs s event.toList t := by
  rw [← List.append_nil event.toList]
  exact .step .refl h

theorem Steps.trans {s t u : Course σ} {earlier later : List Event}
    (h : Steps env stirs s earlier t) (k : Steps env stirs t later u) :
    Steps env stirs s (later ++ earlier) u := by
  induction k with
  | refl => exact h
  | step before last ih =>
    rw [List.append_assoc]
    exact ih.step last

/-- A wait that comes to its end is a step. -/
theorem step_of_waitUntil {deadline : World.Deadline} {moment : Option Nat} {w v : World σ}
    (h : w.waitUntil deadline moment = (v, true)) (calling : Option Call) (agenda : List Task) :
    Step env stirs ⟨w, calling, agenda⟩ none ⟨v, calling, agenda⟩ := by
  cases moment with
  | none => simp [World.waitUntil] at h
  | some m =>
    by_cases hm : m ≤ w.now
    · obtain rfl : w = v := by simpa [World.waitUntil, hm] using h
      exact .wait w.now w.drawn (Nat.le_refl _)
    · simp only [World.waitUntil, hm, if_false] at h
      split at h
      · simp at h
      · split at h
        · obtain ⟨rfl, -⟩ := Prod.mk.inj h
          exact .wait m w.drawn (by omega)
        · simp at h

theorem steps_of_spread {deadline : World.Deadline} {task : Task} {w v : World σ}
    (h : w.spread env deadline task = (v, true)) (agenda : List Task) :
    Steps env stirs ⟨w, none, agenda⟩ [] ⟨v, none, agenda⟩ := by
  unfold World.spread at h
  split at h
  · obtain ⟨rfl, -⟩ := Prod.mk.inj h
    exact .refl
  · next delay _ =>
    have drawing : Step env stirs ⟨w, none, agenda⟩ none
        ⟨{ w with drawn := w.drawn + 1 }, none, agenda⟩ := .wait w.now (w.drawn + 1) (Nat.le_refl _)
    exact (Steps.single drawing).step (step_of_waitUntil h none agenda)

/-- A task that comes to its end is a row of steps. -/
theorem steps_of_runTask {deadline : World.Deadline} {w u : World σ} {task : Task}
    {result : Except Failure Nat}
    (h : w.runTask env deadline task = (u, .ok (.ended result))) (tasks : List Task) :
    ∃ events, Steps env stirs ⟨w, none, task :: tasks⟩ events
      ⟨u, none, remaining tasks result⟩ := by
  unfold World.runTask at h
  split at h
  · simp at h
  · next v hs =>
    have delayed : Steps env stirs ⟨w, none, task :: tasks⟩ [] ⟨v, none, task :: tasks⟩ :=
      steps_of_spread hs (task :: tasks)
    split at h
    · simp at h
    · next investor score hb =>
      obtain ⟨rfl, rfl⟩ : { v with investor } = u ∧ .ok score = result := by simpa using h
      exact ⟨_, delayed.step (.done hb)⟩
    · next investor c hb =>
      have asked := delayed.step (.ask hb)
      unfold World.perform at h
      simp only at h
      split at h
      · simp at h
      · next v' hw =>
        have waited := asked.step (step_of_waitUntil hw (some c) tasks)
        cases hr : v'.settle env c with
        | mk u' outcome =>
          obtain ⟨rfl, ho⟩ :
              u' = u ∧ outcome.map Composite.Ending.ended = .ok (.ended result) := by
            simpa [hr] using h
          obtain ⟨rfl⟩ : outcome = .ok result := by
            cases outcome with
            | error fault => simp [Except.map] at ho
            | ok r => simpa [Except.map] using ho
          exact ⟨_, waited.step (.answer hr)⟩

/-- Tasks that are run up to the last one, or up to the first that fails, are steps. -/
theorem steps_of_runTasks {deadline : World.Deadline} {w u : World σ} {tasks : List Task}
    {r report : Composite.Report}
    (h : Composite.runTasks Task.name (World.runTask env deadline) r tasks w =
      (u, .ok (some report))) :
    ∃ events, Steps env stirs ⟨w, none, tasks⟩ events ⟨u, none, []⟩ := by
  induction tasks generalizing r w with
  | nil =>
    obtain ⟨rfl, -⟩ : w = u ∧ r = report := by simpa [Composite.runTasks] using h
    exact ⟨_, .refl⟩
  | cons task tasks ih =>
    unfold Composite.runTasks at h
    split at h
    · simp at h
    · simp at h
    · next v failure hv =>
      obtain ⟨rfl, -⟩ : v = u ∧ _ := by simpa using h
      exact steps_of_runTask hv tasks
    · next v score hv =>
      obtain ⟨events, first⟩ : ∃ events, Steps env stirs ⟨w, none, task :: tasks⟩ events
          ⟨v, none, tasks⟩ := steps_of_runTask hv tasks
      split at h
      · simp at h
      · obtain ⟨events', rest⟩ := ih h
        exact ⟨_, first.trans rest⟩

/-- A composite that comes to its end is a row of steps. -/
theorem steps_of_runComposite {deadline : World.Deadline} {w u : World σ} {c : Composite Task}
    {report : Composite.Report} (h : w.runComposite env deadline c = (u, .ok (some report))) :
    ∃ events, Steps env stirs ⟨w, none, c.tasks⟩ events ⟨u, none, []⟩ :=
  steps_of_runTasks h

/-- The first composite of an investor begins its run. -/
theorem runs_of_start {deadline : World.Deadline} {w u : World σ} {investor : Investor}
    {c : Composite Task} {report : Composite.Report} (hs : w.investor.start = (investor, .ok c))
    (h : { w with investor }.runComposite env deadline c = (u, .ok (some report))) :
    ∃ history, Runs env stirs w history ⟨u, none, []⟩ := by
  obtain ⟨history, steps⟩ := steps_of_runComposite h
  exact ⟨history, investor, c, hs, steps⟩

/-- The composite of a tick continues a run. -/
theorem Runs.tick {deadline : World.Deadline} {w₀ w u : World σ} {history : List Event}
    {investor : Investor} {c : Composite Task} {report : Composite.Report}
    (run : Runs env stirs w₀ history ⟨w, none, []⟩)
    (hn : w.investor.next (w.isRetired env) = (investor, .ok (some c)))
    (h : { w with investor }.runComposite env deadline c = (u, .ok (some report))) :
    ∃ later, Runs env stirs w₀ (later ++ history) ⟨u, none, []⟩ := by
  obtain ⟨first, c₀, hs, before⟩ := run
  obtain ⟨later, steps⟩ := steps_of_runComposite h
  have whole := (before.step (.next hn)).trans steps
  exact ⟨later, first, c₀, hs, whole⟩

/-- A scripted exchange at which it is always the same time. -/
def scripted : Environment ScriptedExchange where
  exchange := ScriptedExchange.exchange
  wallClock _ := .epoch
  delays _ := 0

/-- The step that is taken when no time passes and the exchange does nothing on its own. -/
def turn (env : Environment σ) : Course σ → Option (Option Event × Course σ)
  | ⟨w, none, []⟩ =>
    match w.investor.next (w.isRetired env) with
    | (investor, .ok (some c)) => some (none, opening w investor c.tasks)
    | _ => none
  | ⟨w, none, task :: tasks⟩ =>
    match w.investor.begin (w.isRetired env) w.now task with
    | .error _ => none
    | .ok (investor, .done _) => some (none, ⟨{ w with investor }, none, tasks⟩)
    | .ok (investor, .ask c) =>
      some (some (.asked c), ⟨{ w with investor }.ask env c, some c, tasks⟩)
  | ⟨w, some c, tasks⟩ =>
    match w.settle env c with
    | (_, .error _) => none
    | (u, .ok result) =>
      some (some (.answered (env.wallClock w.now) c (env.exchange.reply c w.exchange).1 result
        (dropped tasks result)), ⟨u, none, remaining tasks result⟩)

theorem step_of_turn {s t : Course σ} {event : Option Event} (h : s.turn env = some (event, t)) :
    Step env stirs s event t := by
  unfold turn at h
  split at h
  · split at h
    · next hn =>
      obtain ⟨rfl, rfl⟩ := Prod.mk.inj (Option.some.inj h)
      exact .next hn
    · simp at h
  · split at h
    · simp at h
    · next hb =>
      obtain ⟨rfl, rfl⟩ := Prod.mk.inj (Option.some.inj h)
      exact .done hb
    · next hb =>
      obtain ⟨rfl, rfl⟩ := Prod.mk.inj (Option.some.inj h)
      exact .ask hb
  · split at h
    · simp at h
    · next hr =>
      obtain ⟨rfl, rfl⟩ := Prod.mk.inj (Option.some.inj h)
      exact .answer hr

/-- So many turns in a row. -/
def turns (env : Environment σ) : Nat → Course σ → Option (List Event × Course σ)
  | 0, s => some ([], s)
  | n + 1, s => do
    let (history, t) ← turns env n s
    let (event, u) ← t.turn env
    return (event.toList ++ history, u)

theorem steps_of_turns {n : Nat} {s t : Course σ} {history : List Event}
    (h : s.turns env n = some (history, t)) : Steps env stirs s history t := by
  induction n generalizing history t with
  | zero =>
    obtain ⟨rfl, rfl⟩ := Prod.mk.inj (Option.some.inj h)
    exact .refl
  | succ n ih =>
    simp only [turns, Option.bind_eq_bind, Option.bind_eq_some_iff, pure, Option.some.injEq,
      Prod.exists] at h
    obtain ⟨before, u, hb, event, v, hl, hv⟩ := h
    obtain ⟨rfl, rfl⟩ := Prod.mk.inj hv
    exact (ih hb).step (step_of_turn hl)

/-- So many turns of a new investor after its start. -/
def rehearse (env : Environment σ) (profile : InvestorProfile) (timing : Timing) (exchange : σ)
    (n : Nat) : Option (List Event × Course σ) :=
  match Investor.new "investor" profile .standard timing (.ofSeed 0) with
  | .error _ => none
  | .ok inv =>
    match inv.start with
    | (_, .error _) => none
    | (started, .ok c) => (opening (.new inv exchange) started c.tasks).turns env n

/-- What is found at the end of a rehearsal is found on a run. -/
theorem exists_run_of_rehearse (stirs : σ → σ → Prop) {profile : InvestorProfile}
    {timing : Timing} {exchange : σ} {n : Nat} {P : List Event × Course σ → Bool}
    (h : (rehearse env profile timing exchange n).any P) :
    ∃ inv history s, Investor.new "investor" profile .standard timing (.ofSeed 0) = .ok inv ∧
      Runs env stirs (.new inv exchange) history s ∧ P (history, s) := by
  obtain ⟨⟨history, s⟩, found, holds⟩ := (Option.any_eq_true _ _).mp h
  unfold rehearse at found
  split at found
  · simp at found
  · next inv hi =>
    split at found
    · simp at found
    · next hs => exact ⟨inv, history, s, hi, ⟨_, _, hs, steps_of_turns found⟩, holds⟩

/-- What a reply changes outside of the exchange, the investor does. -/
theorem settle_eq (w : World σ) (c : Call) :
    w.settle env c =
      let reply := env.exchange.reply c w.exchange
      let received := w.investor.receive w.now (env.wallClock w.now) c reply.1
      ({ w with investor := received.1, exchange := reply.2 }, received.2) := rfl

theorem ledger_step {s t : Course σ} {event : Option Event} (h : Step env stirs s event t) :
    t.world.investor.ledger =
      s.world.investor.ledger.after (event.toList.filterMap Event.operation) := by
  cases h with
  | wait now drawn h => rfl
  | stir exchange h => rfl
  | next h =>
    obtain ⟨-, rfl, -⟩ := Investor.next_eq_ok h
    rfl
  | done h => exact Investor.ledger_begin h
  | ask h => exact Investor.ledger_begin h
  | @answer w u c tasks result h =>
    obtain rfl : (w.settle env c).1 = u := congrArg Prod.fst h
    have received := Investor.ledger_receive w.investor w.now (env.wallClock w.now) c
      (env.exchange.reply c w.exchange).1
    simp only [settle_eq, received, Option.toList_some, List.filterMap_cons, List.filterMap_nil,
      Event.operation]
    split <;> simp [*]

/-- The ledger of an investor is the one after the operations of its history. -/
theorem ledger_steps {s t : Course σ} {history : List Event} (h : Steps env stirs s history t) :
    t.world.investor.ledger =
      s.world.investor.ledger.after (history.filterMap Event.operation) := by
  induction h with
  | refl => rfl
  | step before last ih =>
    rw [ledger_step last, ih, List.filterMap_append, Ledger.after_append]

theorem ledger_runs {w : World σ} {s : Course σ} {history : List Event}
    (run : Runs env stirs w history s) :
    s.world.investor.ledger =
      w.investor.ledger.after (history.filterMap Event.operation) := by
  obtain ⟨investor, c, hs, steps⟩ := run
  obtain ⟨-, rfl, -⟩ := Investor.start_eq_ok hs
  exact ledger_steps steps

end Course

end TradingLoad
