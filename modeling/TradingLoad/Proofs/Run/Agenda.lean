import TradingLoad.Proofs.Run.Course

namespace TradingLoad

/-- The task places an order or takes one back. -/
def Task.isOrder : Task → Bool
  | .addOrder _ _ _ => true
  | .removeOrder _ => true
  | _ => false

/-- What may be left to do of a composite. -/
inductive IsAgenda : List Task → Prop
  | over : IsAgenda []
  | decision : IsAgenda [.decision]
  | order {task} (h : task.isOrder) : IsAgenda [task, .updateOrders, .decision]
  | quiet {task tasks} (h : ¬ task.isOrder) (other : task ≠ .decision) (rest : IsAgenda tasks) :
      IsAgenda (task :: tasks)

/-- What may be queued for the next composite. -/
inductive IsQueue : List Task → Prop
  | none : IsQueue []
  | order {task} (h : task.isOrder) : IsQueue [task, .updateOrders]
  | update {tasks} (rest : IsQueue tasks) : IsQueue (.updateOrders :: tasks)

theorem IsQueue.isAgenda {tasks : List Task} (h : IsQueue tasks) :
    IsAgenda (tasks ++ [.decision]) := by
  induction h with
  | none => exact .decision
  | order h => exact .order h
  | update rest ih => exact .quiet (by simp [Task.isOrder]) (by simp) ih

theorem isAgenda_startTasks : IsAgenda (Investor.startTasks ++ [.decision]) := by
  have quiet {task : Task} {tasks : List Task} (rest : IsAgenda tasks)
      (h : (!task.isOrder && decide (task ≠ .decision)) = true) : IsAgenda (task :: tasks) := by
    simp only [Bool.and_eq_true, Bool.not_eq_true', decide_eq_true_eq] at h
    exact .quiet (by simp [h.1]) h.2 rest
  exact quiet (quiet (quiet (quiet (quiet .decision rfl) rfl) rfl) rfl) rfl

/-- What a task leaves to do is an agenda again. -/
theorem IsAgenda.tail {task : Task} {tasks : List Task} (h : IsAgenda (task :: tasks)) :
    IsAgenda tasks := by
  cases h with
  | decision => exact .over
  | order h => exact .quiet (by simp [Task.isOrder]) (by simp) .decision
  | quiet h other rest => exact rest

theorem IsAgenda.after_order {task : Task} {tasks : List Task} (h : IsAgenda (task :: tasks))
    (order : task.isOrder) : tasks = [.updateOrders, .decision] := by
  cases h with
  | decision => simp [Task.isOrder] at order
  | order h => rfl
  | quiet h other rest => exact absurd order h

theorem IsAgenda.after_decision {tasks : List Task} (h : IsAgenda (.decision :: tasks)) :
    tasks = [] := by
  cases h with
  | decision => rfl
  | order h => simp [Task.isOrder] at h
  | quiet h other rest => exact absurd rfl other

theorem isQueue_of_updates {tasks rest : List Task} (updates : ∀ t ∈ tasks, t = .updateOrders)
    (h : IsQueue rest) : IsQueue (tasks ++ rest) := by
  induction tasks with
  | nil => exact h
  | cons task tasks ih =>
    obtain rfl := updates task List.mem_cons_self
    exact .update (ih fun t ht => updates t (List.mem_cons_of_mem _ ht))

theorem isQueue_followUps (d : Decision) : IsQueue (Investor.followUps d) := by
  cases d with
  | hold => exact .none
  | place side amount price motive => exact .order rfl
  | cancel id => exact .order rfl
  | reprice before after => exact .none

namespace Course

variable {σ : Type} {env : Environment σ} {stirs : σ → σ → Prop}

/-- No composite is in hand. -/
def isIdle (s : Course σ) : Prop := s.calling = none ∧ s.agenda = []

/-- What is in hand and what is queued have the shape that start, tick and decision give them. -/
structure Orderly (s : Course σ) : Prop where
  agenda : IsAgenda s.agenda
  queue : IsQueue s.world.investor.pending
  /-- Within a composite only polls have queued something. -/
  updates : ¬ s.isIdle → ∀ task ∈ s.world.investor.pending, task = .updateOrders
  calling : ∀ c, s.calling = some c → c.task.isOrder → s.agenda = [.updateOrders, .decision]

/-- A task that is over has left the queue as it was, or was the decision. -/
theorem Orderly.done {w : World σ} {investor : Investor} {task : Task} {tasks : List Task}
    {score : Nat} (ho : Orderly (⟨w, none, task :: tasks⟩ : Course σ))
    (h : w.investor.begin (w.isRetired env) w.now task = .ok (investor, .done score)) :
    Orderly (⟨{ w with investor }, none, tasks⟩ : Course σ) := by
  have busy : ¬ (⟨w, none, task :: tasks⟩ : Course σ).isIdle := by simp [isIdle]
  obtain ⟨-, rfl | ⟨rfl, hd⟩⟩ := Investor.begin_eq_done h
  · exact ⟨ho.agenda.tail, ho.queue, fun _ => ho.updates busy, by simp⟩
  · obtain rfl := ho.agenda.after_decision
    obtain rfl | ⟨s, d, trader, -, -, rfl⟩ := Investor.decide_eq_ok hd
    · exact ⟨.over, ho.queue, fun _ => ho.updates busy, by simp⟩
    · refine ⟨.over, isQueue_of_updates (ho.updates busy) (isQueue_followUps d), ?_, by simp⟩
      intro idle
      exact absurd ⟨rfl, rfl⟩ idle

/-- A reply queues updates at most. -/
theorem Orderly.updates_settle {w : World σ} {c : Call} {tasks : List Task}
    (ho : Orderly (⟨w, some c, tasks⟩ : Course σ)) :
    ∀ task ∈ (w.settle env c).1.investor.pending, task = .updateOrders := by
  have queued := Investor.pending_receive w.investor w.now (env.wallClock w.now) c
    (env.exchange.reply c w.exchange).1
  intro task ht
  rw [settle_eq] at ht
  simp only [queued] at ht
  obtain ht | ht := List.mem_append.mp ht
  · exact ho.updates (by simp [isIdle]) task ht
  · split at ht
    · split at ht
      · exact List.mem_singleton.mp ht
      · simp at ht
    · simp at ht

/-- A reply leaves the rest of the composite to do, or drops it. -/
theorem Orderly.answer {w u : World σ} {c : Call} {tasks : List Task} {result : Except Failure Nat}
    (ho : Orderly (⟨w, some c, tasks⟩ : Course σ)) (h : w.settle env c = (u, .ok result)) :
    Orderly (⟨u, none, remaining tasks result⟩ : Course σ) := by
  obtain rfl : (w.settle env c).1 = u := congrArg Prod.fst h
  refine ⟨?_, ?_, fun _ => ho.updates_settle, by simp⟩
  · cases result with
    | ok score => exact ho.agenda
    | error failure => exact .over
  · simpa using isQueue_of_updates ho.updates_settle .none

theorem orderly_step {s t : Course σ} {event : Option Event} (h : Step env stirs s event t)
    (ho : s.Orderly) : t.Orderly := by
  cases h with
  | wait now drawn h => exact ⟨ho.agenda, ho.queue, ho.updates, ho.calling⟩
  | stir exchange h => exact ⟨ho.agenda, ho.queue, ho.updates, ho.calling⟩
  | next h =>
    obtain ⟨-, rfl, hc⟩ := Investor.next_eq_ok h
    refine ⟨?_, .none, by simp [opening], by simp [opening]⟩
    simp only [opening, hc]
    exact .quiet (by simp [Task.isOrder]) (by simp) ho.queue.isAgenda
  | done h => exact ho.done h
  | @ask w task tasks investor c h =>
    obtain ⟨rfl, rfl⟩ := Investor.begin_eq_ask h
    refine ⟨ho.agenda.tail, ho.queue, fun _ => ho.updates (by simp [isIdle]), ?_⟩
    intro c' hc order
    obtain rfl := Option.some.inj hc
    exact ho.agenda.after_order order
  | answer h => exact ho.answer h

theorem orderly_steps {s t : Course σ} {history : List Event} (h : Steps env stirs s history t)
    (ho : s.Orderly) : t.Orderly := by
  induction h with
  | refl => exact ho
  | step before last ih => exact orderly_step last ih

/-- Along every run of an investor that had nothing queued the shape is kept. -/
theorem orderly_of_runs {w : World σ} {s : Course σ} {history : List Event}
    (run : Runs env stirs w history s) (empty : w.investor.pending = []) : s.Orderly := by
  obtain ⟨investor, c, hs, steps⟩ := run
  obtain ⟨-, rfl, hc⟩ := Investor.start_eq_ok hs
  induction steps with
  | refl =>
    refine ⟨?_, ?_, ?_, by simp [opening]⟩
    · simp only [opening, hc]
      exact isAgenda_startTasks
    · simp only [opening, empty]
      exact .none
    · simp [opening, empty]
  | step before last ih => exact orderly_step last ih

end Course

end TradingLoad
