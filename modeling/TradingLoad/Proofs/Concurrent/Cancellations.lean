import TradingLoad.Proofs.Concurrent.Exclusion
import TradingLoad.Proofs.Ledger.Permanence
import TradingLoad.Proofs.Run.Course

namespace TradingLoad

namespace Investor

variable {inv inv' : Investor} {retired : Bool} {now : Nat} {task : Task}

theorem not_isRemoved_of_begin {id : Int}
    (h : inv.begin retired now task = .ok (inv', .ask (.deleteOrder id))) :
    (inv.ledger.find? id).any Order.isRemoved = false := by
  obtain ⟨-, rfl⟩ := begin_eq_ask h
  by_contra removed
  have found : (inv.ledger.find? id).any Order.isRemoved = true := by simpa using removed
  simp [begin, Call.task, found] at h

/-- A call that the trading region does not guard has no effect on the ledger. -/
theorem ledger_receive_of_unguarded {c : Call} (h : c.task.region ≠ some .trading)
    (inv : Investor) (now : Nat) (at_ : Timestamp) (r : c.Reply) :
    (inv.receive now at_ c r).1.ledger = inv.ledger := by
  rw [ledger_receive]
  cases c with
  | getOrders | addOrder | deleteOrder | signup => exact absurd rfl h
  | top | signin | info => rfl

/-- A cancellation earns nothing unless it succeeds. -/
theorem receive_deleteOrder_eq_ok {at_ : Timestamp} {id : Int} {r : Except Failure Unit}
    {score : Nat} (h : (inv.receive now at_ (.deleteOrder id) r).2 = .ok (.ok score)) :
    r = .ok () ∨ score = 0 := by
  cases r with
  | ok u => exact .inl rfl
  | error failure =>
    right
    simp only [receive, Except.ok.injEq] at h
    split at h
    · exact (Except.ok.inj h).symm
    · cases h

theorem receive_deleteOrder_ne_error {at_ : Timestamp} {id : Int} {r : Except Failure Unit}
    {fault : Fault} : (inv.receive now at_ (.deleteOrder id) r).2 ≠ .error fault := by
  cases r <;> simp [receive]

end Investor

namespace Concurrent

variable {σ : Type} {env : Environment σ} {stirs : σ → σ → Prop} {s t : Concurrent σ}
  {event : Option Event} {history : List Event} {i j : Nat} {task : Task} {stage : Stage} {id : Int}

/-- What an event does to the ledger. -/
def Event.operation? : Event → Option Ledger.Operation
  | .entered _ _ _ _ _ => none
  | .answered _ _ at_ c r => Investor.operationOf at_ c r

/-- What is done to the ledger, the latest operation first. -/
def operations (history : List Event) : List Ledger.Operation :=
  history.filterMap Event.operation?

theorem after_operations_append (l : Ledger) (later earlier : List Event) :
    l.after (operations (later ++ earlier)) =
      (l.after (operations earlier)).after (operations later) := by
  rw [operations, List.filterMap_append, Ledger.after_append]
  rfl

theorem ledger_of_step (h : Step env stirs s event t) :
    t.world.investor.ledger = s.world.investor.ledger.after (operations event.toList) := by
  have change := investor_of_step h
  cases event with
  | none => exact congrArg Investor.ledger change
  | some event =>
    cases event with
    | entered job task now glance call =>
      obtain same | ⟨opening, hb⟩ := change
      · exact congrArg Investor.ledger same
      · exact Investor.ledger_begin hb
    | answered job now at_ c r =>
      have received : t.world.investor = (s.world.investor.receive now at_ c r).1 := change
      rw [received, Investor.ledger_receive]
      cases ho : Investor.operationOf at_ c r <;> simp [operations, Event.operation?, ho]

/-- The ledger of an investor is the one after the operations of its history. -/
theorem ledger_of_steps (h : Steps env stirs s history t) :
    t.world.investor.ledger = s.world.investor.ledger.after (operations history) := by
  induction h with
  | refl => rfl
  | step before last ih =>
    rw [ledger_of_step last, ih, ← after_operations_append]

theorem rewards_of_steps (h : Steps env stirs s history t) :
    t.world.investor.rewards = s.world.investor.rewards :=
  kept_of_steps Investor.rewards_begin Investor.rewards_receive h

theorem Enters.outside {task' : Task} (h : Enters s i task t)
    (here : s.jobs[i]? = some ⟨task', stage⟩) : stage.hasEntered = false := by
  obtain ⟨stage', before, outside⟩ := h.here
  rw [here] at before
  cases before
  exact outside

/-- A task that is over stays so. -/
theorem over_of_step (h : Step env stirs s event t) {result : Except Failure Nat}
    (ended : s.jobs[i]? = some ⟨task, .over result⟩) : t.jobs[i]? = some ⟨task, .over result⟩ := by
  cases h with
  | wait now h => exact ended
  | stir exchange h => exact ended
  | move k h shows =>
    have moves := (moves_of_step h shows).2
    have other : i ≠ k := by
      rintro rfl
      cases moves with
      | nap here => rw [ended] at here; cases here
      | queue here outside guarded held => rw [ended] at here; cases here; cases outside
      | enter enters opens => cases enters.outside ended
      | settle here settles => rw [ended] at here; cases here
    rw [moves.job_of_ne other]
    exact ended

theorem over_of_steps (h : Steps env stirs s history t) {result : Except Failure Nat}
    (ended : s.jobs[i]? = some ⟨task, .over result⟩) : t.jobs[i]? = some ⟨task, .over result⟩ := by
  induction h with
  | refl => exact ended
  | step before last ih => exact over_of_step last ih

/-- How a task has come to wait for a reply or to be over: it was there before the step, or it has
gone on without a call or with one, or its reply has come. -/
inductive Reached (s : Concurrent σ) (i : Nat) (task : Task) : Option Event → Stage → Prop
  | kept {event : Option Event} {stage : Stage} (here : s.jobs[i]? = some ⟨task, stage⟩) :
      Reached s i task event stage
  | done {now glance call investor score}
      (h : s.world.investor.begin glance.retired now task = .ok (investor, .done score)) :
      Reached s i task (some (.entered i task now glance call)) (.over (.ok score))
  | asks {now glance call investor c due}
      (h : s.world.investor.begin glance.retired now task = .ok (investor, .ask c)) :
      Reached s i task (some (.entered i task now glance call)) (.asking c due)
  | replied {now at_ c r due result} (waits : s.jobs[i]? = some ⟨task, .asking c due⟩)
      (h : (s.world.investor.receive now at_ c r).2 = .ok result) :
      Reached s i task (some (.answered i now at_ c r)) (.over result)

theorem Enters.reached {u : Concurrent σ} (enters : Enters s i task u)
    (opens : Opened env u i task t) (here : t.jobs[i]? = some ⟨task, stage⟩)
    (had : stage.hasEntered) :
    Reached s i task
      (some (.entered i task s.world.now (s.world.glance env) (s.world.callOf env task)))
      stage := by
  obtain ⟨stage', before, outside⟩ := enters.here
  have before' : u.jobs[i]? = some ⟨task, stage'⟩ := by rw [enters.jobs_eq]; exact before
  cases opens with
  | fault hb =>
    rw [before'] at here
    cases here
    rw [outside] at had
    cases had
  | @done investor score hb =>
    rw [jobs_close,
      job_setStage (s := { u with world := { u.world with investor } }) before'] at here
    cases here
    rw [enters.world_eq] at hb
    exact .done hb
  | @ask c due same hb =>
    rw [job_setStage (s := { u with world := u.world.ask env c }) before'] at here
    cases here
    rw [enters.world_eq] at hb
    exact .asks hb

theorem Settled.reached {c : Call} {due : Option Nat}
    (before : s.jobs[i]? = some ⟨task, .asking c due⟩) (settles : Settled env s i task c t)
    (here : t.jobs[i]? = some ⟨task, stage⟩) :
    Reached s i task
      (some (.answered i s.world.now (env.wallClock s.world.now) c
        (env.exchange.reply c s.world.exchange).1)) stage := by
  obtain ⟨fault, -, -, asking⟩ | ⟨result, outcome, ended⟩ := settles.stage before
  · rw [asking] at here
    cases here
    exact .kept before
  · rw [ended] at here
    cases here
    exact .replied before outcome

theorem reached_of_step (h : Step env stirs s event t) (here : t.jobs[i]? = some ⟨task, stage⟩)
    (had : stage.hasEntered) : Reached s i task event stage := by
  cases h with
  | wait now h => exact .kept here
  | stir exchange h => exact .kept here
  | move k h shows =>
    have moves := (moves_of_step h shows).2
    by_cases self : i = k
    · obtain rfl := self
      obtain ⟨task', stage₁, stage₂, before, after⟩ := moves.job
      obtain rfl : task' = task := by
        rw [here] at after
        cases after
        rfl
      cases moves with
      | @nap _ drawn wake fresh =>
        rw [job_setStage (s := { s with world := { s.world with drawn } }) fresh] at here
        cases here
        cases had
      | @queue _ _ r waits outside guarded held =>
        rw [← jobs_setLock s r ((s.lock r).request i)] at waits
        rw [job_setStage waits] at here
        cases here
        cases had
      | enter enters opens =>
        obtain ⟨stage', enters', -⟩ := enters.here
        rw [before] at enters'
        cases enters'
        exact enters.reached opens here had
      | settle asking settles =>
        rw [before] at asking
        cases asking
        exact settles.reached before here
    · rw [moves.job_of_ne self] at here
      exact .kept here

/-- When a task has gone on to remove an order, the ledger has tracked it. The given ledger is that
before the history. -/
def HasFound (l : Ledger) (history : List Event) (i : Nat) (id : Int) : Prop :=
  ∃ later earlier now glance call,
    history = later ++ .entered i (.removeOrder id) now glance call :: earlier ∧
      (l.after (operations earlier)).tracks id

/-- The call of a task to cancel an order has succeeded. -/
def HasCancelled (history : List Event) (i : Nat) (id : Int) : Prop :=
  ∃ now at_, .answered i now at_ (.deleteOrder id) (.ok ()) ∈ history

variable {w : World σ} {tasks : List Task} {l : Ledger} {due due' : Option Nat}

/-- What has been tracked once is tracked at the end of the history. -/
theorem HasFound.tracks (h : HasFound l history i id) :
    (l.after (operations history)).tracks id := by
  obtain ⟨later, earlier, now, glance, call, rfl, tracked⟩ := h
  rw [after_operations_append]
  exact Ledger.tracks_after tracked (operations later)

/-- Nobody changes the ledger while a cancellation is under way. -/
theorem Guarded.ledger_eq (hg : s.Guarded) (h : Step env stirs s event t)
    (before : s.jobs[i]? = some ⟨task, .asking (.deleteOrder id) due⟩)
    (after : t.jobs[i]? = some ⟨task, .asking (.deleteOrder id) due'⟩) :
    t.world.investor.ledger = s.world.investor.ledger := by
  have change := investor_of_step h
  cases event with
  | none => exact congrArg Investor.ledger change
  | some event =>
    cases event with
    | entered k task' now glance call => exact ledger_of_step h
    | answered k now at_ c r =>
      have received : t.world.investor = (s.world.investor.receive now at_ c r).1 := change
      by_cases guarded : c.task.region = some .trading
      · exfalso
        obtain ⟨-, -, -, -, task', due', waits, settles⟩ := settles_of_step h
        obtain ⟨own, holds⟩ := hg i task _ _ before
        obtain ⟨own', holds'⟩ := hg k task' _ _ waits
        have first := holds .trading (own ▸ rfl)
        have second := holds' .trading (own' ▸ guarded)
        obtain rfl : k = i := Option.some.inj (second.symm.trans first)
        rw [before] at waits
        cases waits
        obtain ⟨fault, failed, -⟩ | ⟨result, -, ended⟩ := settles.stage before
        · exact Investor.receive_deleteOrder_ne_error failed
        · rw [after] at ended
          cases ended
      · rw [received]
        exact Investor.ledger_receive_of_unguarded guarded _ _ _ _

/-- An order that is being cancelled is not known to be removed. -/
theorem not_isRemoved_of_asking (run : Runs env stirs w tasks history s)
    (asking : s.jobs[i]? = some ⟨task, .asking (.deleteOrder id) due⟩) :
    (s.world.investor.ledger.find? id).any Order.isRemoved = false := by
  induction run with
  | refl =>
    obtain ⟨t, -, fresh⟩ := List.mem_map.mp (List.mem_of_getElem? asking)
    cases fresh
  | step before last ih =>
    cases reached_of_step last asking rfl with
    | kept here =>
      rw [(guarded_of_runs before).ledger_eq last here asking]
      exact ih here
    | asks h =>
      rw [ledger_of_step last]
      exact Investor.not_isRemoved_of_begin h

/-- A task that has cancelled an order is over, and paid. -/
theorem over_of_hasCancelled (run : Runs env stirs w tasks history s)
    (h : HasCancelled history i id) :
    s.jobs[i]? = some ⟨.removeOrder id, .over (.ok w.investor.rewards.deleteOrder)⟩ := by
  obtain ⟨now, at_, mem⟩ := h
  obtain ⟨later, earlier, rfl⟩ := List.append_of_mem mem
  obtain ⟨t, t', before, answers, rest⟩ := Steps.split run
  apply over_of_steps rest
  obtain ⟨-, -, -, succeeded, task, due, waits, settles⟩ := settles_of_step answers
  obtain ⟨rfl, -⟩ := guarded_of_runs before i task _ due waits
  obtain ⟨fault, failed, -⟩ | ⟨result, outcome, ended⟩ := settles.stage waits
  · exact absurd failed Investor.receive_deleteOrder_ne_error
  · have told : (t.world.settle env (.deleteOrder id)).2 =
        (t.world.investor.receive t.world.now (env.wallClock t.world.now) (.deleteOrder id)
          (env.exchange.reply (.deleteOrder id) t.world.exchange).1).2 := rfl
    rw [told, ← succeeded] at outcome
    obtain rfl := Except.ok.inj outcome
    have rewards : t.world.investor.rewards = w.investor.rewards := rewards_of_steps before
    rw [rewards] at ended
    exact ended

/-- A removal that is over has cancelled its order, or has failed or earned nothing. -/
theorem hasCancelled_of_over (run : Runs env stirs w tasks history s) {score : Nat}
    (ended : s.jobs[i]? = some ⟨.removeOrder id, .over (.ok score)⟩) :
    HasCancelled history i id ∨ score = 0 := by
  induction run with
  | refl =>
    obtain ⟨t, -, fresh⟩ := List.mem_map.mp (List.mem_of_getElem? ended)
    cases fresh
  | @step history event t u before last ih =>
    cases reached_of_step last ended rfl with
    | kept here =>
      obtain ⟨now, at_, mem⟩ | none := ih here
      · exact .inl ⟨now, at_, List.mem_append_right _ mem⟩
      · exact .inr none
    | done h => exact .inr (Investor.score_of_done h)
    | @replied now at_ c r due _ waits h =>
      obtain ⟨own, -⟩ := guarded_of_runs before i _ c due waits
      cases c with
      | deleteOrder id' =>
        cases own
        obtain rfl | none := Investor.receive_deleteOrder_eq_ok h
        · exact .inl ⟨now, at_, List.mem_cons_self⟩
        · exact .inr none
      | _ => cases own

/-- What has just made a removal one that has found its order and has cancelled it can only be the
reply to its call. -/
theorem hasCancelled_of_step (run : Runs env stirs w tasks history s)
    (last : Step env stirs s event t) (found : HasFound l (event.toList ++ history) i id)
    (cancelled : HasCancelled (event.toList ++ history) i id) :
    HasFound l history i id ∧ (HasCancelled history i id ∨
      ∃ now at_, event = some (.answered i now at_ (.deleteOrder id) (.ok ()))) := by
  obtain ⟨now, at_, mem⟩ := cancelled
  obtain ⟨later, earlier, now', glance, call, whole, tracked⟩ := found
  cases event with
  | none => exact ⟨⟨later, earlier, now', glance, call, whole, tracked⟩, .inl ⟨now, at_, mem⟩⟩
  | some event =>
    cases later with
    | nil =>
      -- the task would have gone on after it was over
      exfalso
      obtain ⟨rfl, rfl⟩ := List.cons.inj whole
      obtain same | mem := List.mem_cons.mp mem
      · cases same
      · have ended := over_of_hasCancelled run ⟨now, at_, mem⟩
        obtain ⟨-, -, -, -, u, enters, -⟩ := enters_of_step last
        cases enters.outside ended
    | cons event' later =>
      obtain ⟨rfl, rest⟩ := List.cons.inj whole
      refine ⟨⟨later, earlier, now', glance, call, rest, tracked⟩, ?_⟩
      obtain rfl | mem := List.mem_cons.mp mem
      · exact .inr ⟨now, at_, rfl⟩
      · exact .inl ⟨now, at_, mem⟩

theorem not_hasCancelled_nil : ¬ HasCancelled [] i id := by
  rintro ⟨now, at_, mem⟩
  cases mem

/-- An order that a removal has found and cancelled is known to be removed. -/
theorem isRemoved_of_hasCancelled (run : Runs env stirs w tasks history s)
    (found : HasFound w.investor.ledger history i id) (cancelled : HasCancelled history i id) :
    (s.world.investor.ledger.find? id).any Order.isRemoved := by
  induction run with
  | refl => exact absurd cancelled not_hasCancelled_nil
  | step before last ih =>
    obtain ⟨found', cancelled' | ⟨now, at_, rfl⟩⟩ :=
      hasCancelled_of_step before last found cancelled
    · rw [ledger_of_step last]
      exact Ledger.isRemoved_find?_after (ih found' cancelled') _
    · have tracked := found'.tracks
      rw [ledger_of_step last, ledger_of_steps before]
      exact Ledger.isRemoved_find?_markClosed tracked at_

/-- When a cancellation succeeds, no removal that has found the order has cancelled it before. -/
theorem not_hasCancelled_of_answered (run : Runs env stirs w tasks history s) {now : Nat}
    {at_ : Timestamp} {r : Except Failure Unit}
    (last : Step env stirs s (some (.answered i now at_ (.deleteOrder id) r)) t)
    (found : HasFound w.investor.ledger history j id) : ¬ HasCancelled history j id := by
  intro cancelled
  have removed := isRemoved_of_hasCancelled run found cancelled
  obtain ⟨-, -, -, -, task, due, waits, -⟩ := settles_of_step last
  rw [not_isRemoved_of_asking run waits] at removed
  cases removed

theorem eq_of_hasCancelled (run : Runs env stirs w tasks history s)
    (found : HasFound w.investor.ledger history i id) (cancelled : HasCancelled history i id)
    (found' : HasFound w.investor.ledger history j id) (cancelled' : HasCancelled history j id) :
    i = j := by
  induction run with
  | refl => exact absurd cancelled not_hasCancelled_nil
  | step before last ih =>
    obtain ⟨first, past | ⟨now, at_, rfl⟩⟩ := hasCancelled_of_step before last found cancelled
    · obtain ⟨second, past' | ⟨now, at_, rfl⟩⟩ :=
        hasCancelled_of_step before last found' cancelled'
      · exact ih first past second past'
      · exact absurd past (not_hasCancelled_of_answered before last first)
    · obtain ⟨second, past' | ⟨now', at_', same⟩⟩ :=
        hasCancelled_of_step before last found' cancelled'
      · exact absurd past' (not_hasCancelled_of_answered before last second)
      · cases same
        rfl

/-- A cancellation is asked for only while its order is not known to be removed. -/
theorem not_isRemoved_of_asks {now : Nat} {glance : Glance}
    (h : Step env stirs s (some (.entered i task now glance (some (.deleteOrder id)))) t) :
    (s.world.investor.ledger.find? id).any Order.isRemoved = false := by
  obtain ⟨-, -, -, calls, -⟩ := enters_of_step h
  obtain ⟨inv, hb⟩ := World.callOf_eq_some.mp calls.symm
  exact Investor.not_isRemoved_of_begin hb

/-- What is found removed is not asked to be cancelled later on. -/
theorem not_asked_of_isRemoved {later earlier : List Event}
    (run : Runs env stirs w tasks (later ++ earlier) s)
    (removed : ((w.investor.ledger.after (operations earlier)).find? id).any Order.isRemoved)
    {now : Nat} {glance : Glance} :
    .entered i task now glance (some (.deleteOrder id)) ∉ later := by
  intro asked
  obtain ⟨later', between, rfl⟩ := List.append_of_mem asked
  rw [List.append_assoc, List.cons_append] at run
  obtain ⟨t, t', prior, asks, -⟩ := Steps.split run
  have unremoved := not_isRemoved_of_asks asks
  have still := Ledger.isRemoved_find?_after removed (operations between)
  rw [← after_operations_append] at still
  rw [ledger_of_steps prior] at unremoved
  have clash : false = true := unremoved.symm.trans still
  cases clash

/-- **A cancellation is asked for and paid at most once**, whatever the exchange does. Once an order
is removed in the ledger it is not asked to be cancelled any more, if identifiers are distinct. Of
the removals that have found an order with a certain identifier one at most has cancelled it. And a
removal earns its reward just for that. Tasks one after another are one of the ways to run them. -/
theorem cancelled_at_most_once (run : Runs env stirs w tasks history s)
    (distinct : (s.world.investor.ledger.orders.map Order.id).Nodup) :
    let l := w.investor.ledger
    s.world.investor.ledger = l.after (operations history) ∧
    (∀ later earlier o, history = later ++ earlier →
      o ∈ (l.after (operations earlier)).orders → o.isRemoved →
        ∀ i task now glance, .entered i task now glance (some (.deleteOrder o.id)) ∉ later) ∧
    (∀ id i j, HasFound l history i id → HasCancelled history i id →
      HasFound l history j id → HasCancelled history j id → i = j) ∧
    (∀ id i, HasCancelled history i id →
      s.jobs[i]? = some ⟨.removeOrder id, .over (.ok w.investor.rewards.deleteOrder)⟩) ∧
    ∀ id i score, s.jobs[i]? = some ⟨.removeOrder id, .over (.ok score)⟩ →
      HasCancelled history i id ∨ score = 0 := by
  intro l
  have ledger : s.world.investor.ledger = l.after (operations history) := ledger_of_steps run
  refine ⟨ledger, ?_, ?_, ?_, ?_⟩
  · rintro later earlier o rfl mem removed i task now glance asked
    have before : (((l.after (operations earlier)).orders).map Order.id).Nodup := by
      rw [ledger, after_operations_append, Ledger.ids_after] at distinct
      exact (List.nodup_append.mp distinct).1
    have found : (l.after (operations earlier)).find? o.id = some o :=
      Ledger.remoteOf_of_mem before mem rfl
    refine not_asked_of_isRemoved run ?_ asked
    rw [found]
    exact removed
  · intro id i j found cancelled found' cancelled'
    exact eq_of_hasCancelled run found cancelled found' cancelled'
  · intro id i cancelled
    exact over_of_hasCancelled run cancelled
  · intro id i score ended
    exact hasCancelled_of_over run ended

/-- Two removals of one order, the second of which has to wait for the first. -/
theorem cancelled_once_by_two_removals :
    ∃ inv history s,
      Investor.new "investor" ⟨500, 0, 5, 100, 1⟩ .standard .standard (.ofSeed 0) = .ok inv ∧
      Runs Course.scripted (fun _ _ => False) (.new inv .initial)
        [.addOrder .buy 5 100, .removeOrder 1, .removeOrder 1] history s ∧
      s.world.investor.ledger.orders.map Order.id = [1] ∧
      s.jobs[2]? = some ⟨.removeOrder 1, .over (.ok 0)⟩ ∧
      HasCancelled history 1 1 ∧ ¬ HasCancelled history 2 1 := by
  have rehearsal : (rehearse Course.scripted ⟨500, 0, 5, 100, 1⟩ .standard .initial
      [.addOrder .buy 5 100, .removeOrder 1, .removeOrder 1]
      [.go 0, .go 0, .go 1, .go 2, .go 1, .go 2]).any fun r =>
        decide (r.2.world.investor.ledger.orders.map Order.id = [1]) &&
        decide (r.2.jobs[1]? = some ⟨.removeOrder 1, .over (.ok Rewards.standard.deleteOrder)⟩) &&
        decide (r.2.jobs[2]? = some ⟨.removeOrder 1, .over (.ok 0)⟩) := by decide
  obtain ⟨inv, history, s, hi, run, found⟩ := exists_run_of_rehearse (fun _ _ => False) rehearsal
  simp only [Bool.and_eq_true, decide_eq_true_eq] at found
  obtain ⟨⟨ids, first⟩, second⟩ := found
  have distinct : (s.world.investor.ledger.orders.map Order.id).Nodup := by
    rw [ids]
    decide
  obtain ⟨-, -, -, paid, unpaid⟩ := cancelled_at_most_once run distinct
  refine ⟨inv, history, s, hi, run, ids, second, ?_, ?_⟩
  · obtain cancelled | none := unpaid 1 1 _ first
    · exact cancelled
    · cases none
  · intro cancelled
    have ended := paid 1 2 cancelled
    have standard : (World.new inv ScriptedExchange.initial).investor.rewards = .standard :=
      Investor.rewards_of_new hi
    rw [second, standard] at ended
    cases ended

end Concurrent

end TradingLoad
