import TradingLoad.Proofs.Concurrent.Exclusion
import TradingLoad.Proofs.Exchange.Desk

namespace TradingLoad

/-- The failure says that the exchange has lost an order. -/
def Failure.accuses : Failure → Bool
  | .sellOrderVanished _ => true
  | .orderNotReflected _ _ => true
  | _ => false

namespace Investor

variable {inv : Investor}

/-- Only a decision may end in a fault before a call. -/
theorem region_of_begin_eq_error {retired : Bool} {now : Nat} {task : Task} {fault : Fault}
    (h : inv.begin retired now task = .error fault) : task.region = some .trading := by
  cases task with
  | decision => rfl
  | _ => simp [begin] at h

/-- Only a reconciliation may end in a fault after the reply. -/
theorem region_of_receive_eq_error {now : Nat} {at_ : Timestamp} {c : Call} {r : c.Reply}
    {fault : Fault} (h : (inv.receive now at_ c r).2 = .error fault) :
    c.task.region = some .trading := by
  cases c with
  | getOrders => rfl
  | _ => cases r <;> simp [receive] at h

/-- What an answer adds to the orders that an investor knows. -/
theorem ids_receive (inv : Investor) (now : Nat) (at_ : Timestamp) (c : Call) (r : c.Reply) :
    (inv.receive now at_ c r).1.ledger.orders.map Order.id =
      inv.ledger.orders.map Order.id ++ (acceptedId ⟨c, r⟩).toList := by
  rw [ledger_receive]
  cases c with
  | getOrders =>
    cases r with
    | error failure => exact (List.append_nil _).symm
    | ok orders => exact inv.ledger.ids_perform (.reconcile orders at_)
  | addOrder side amount price =>
    cases r with
    | error failure => exact (List.append_nil _).symm
    | ok o => exact inv.ledger.ids_perform (.place o)
  | deleteOrder id =>
    cases r with
    | error failure => exact (List.append_nil _).symm
    | ok u => exact inv.ledger.ids_perform (.close id at_)
  | _ => exact (List.append_nil _).symm

/-- A fetch that is answered with the orders that an investor knows accuses nobody. -/
theorem not_accuses_of_ids {now : Nat} {at_ : Timestamp} {orders : List Order} {failure : Failure}
    (same : orders.map Order.id = inv.ledger.orders.map Order.id)
    (h : (inv.receive now at_ .getOrders (.ok orders)).2 = .ok (.error failure)) :
    failure.accuses = false := by
  have outcome : (inv.ledger.reconcile orders at_).2.map
      (fun result => result.map fun _ => inv.rewards.getOrders) = .ok (.error failure) := h
  have ends : Ledger.TookOver (inv.ledger.reconcile orders at_).2 ∨
      ∃ fault, (inv.ledger.reconcile orders at_).2 = .error fault := Ledger.reconcile_of_ids same
  obtain (⟨report, hr⟩ | ⟨credit, inventory, hr⟩) | ⟨fault, hr⟩ := ends
  · rw [hr] at outcome
    cases outcome
  · rw [hr] at outcome
    cases outcome
    rfl
  · rw [hr] at outcome
    cases outcome

end Investor

namespace Concurrent

variable {σ : Type} {env : Environment σ} {stirs : σ → σ → Prop} {desk : σ → Desk}
  {s t : Concurrent σ} {history : List Event} {i : Nat} {task : Task}

/-- The calls under way when a task comes to a new stage. -/
theorem inFlight_setStage {stage : Stage} (here : s.jobs[i]? = some ⟨task, stage⟩)
    (stage' : Stage) :
    ∃ others, s.inFlight.Perm ((Job.call? ⟨task, stage⟩).toList ++ others) ∧
      (s.setStage i stage').inFlight.Perm ((Job.call? ⟨task, stage'⟩).toList ++ others) := by
  obtain ⟨inside, found⟩ := List.getElem?_eq_some_iff.mp here
  have before := (List.getElem_cons_eraseIdx_perm inside).symm
  have after := List.set_perm_cons_eraseIdx inside ⟨task, stage'⟩
  rw [found] at before
  refine ⟨(s.jobs.eraseIdx i).filterMap Job.call?, ?_, ?_⟩
  · rw [inFlight, ← filterMap_cons_toList]
    exact before.filterMap _
  · rw [inFlight, jobs_setStage here, ← filterMap_cons_toList]
    exact after.filterMap _

theorem inFlight_close (s : Concurrent σ) (i : Nat) (task : Task) (result : Except Failure Nat) :
    (s.close i task result).inFlight = (s.setStage i (.over result)).inFlight := by
  unfold inFlight
  rw [jobs_close]

theorem call?_of_not_hasEntered {stage : Stage} (h : stage.hasEntered = false) :
    Job.call? ⟨task, stage⟩ = none := by
  cases stage <;> simp_all [Stage.hasEntered, Job.call?]

/-- A task that has not had its region adds what it waits for from now on. -/
theorem inFlight_of_not_hasEntered {stage : Stage} (here : s.jobs[i]? = some ⟨task, stage⟩)
    (outside : stage.hasEntered = false) (stage' : Stage) :
    ((Job.call? ⟨task, stage'⟩).toList ++ s.inFlight).Perm (s.setStage i stage').inFlight := by
  obtain ⟨others, before, after⟩ := inFlight_setStage here stage'
  rw [call?_of_not_hasEntered outside] at before
  exact (before.append_left _).trans after.symm

/-- A task that is over takes its call away. -/
theorem inFlight_of_asking {c : Call} {due : Option Nat}
    (here : s.jobs[i]? = some ⟨task, .asking c due⟩) (result : Except Failure Nat) :
    s.inFlight.Perm (c :: (s.setStage i (.over result)).inFlight) := by
  obtain ⟨others, before, after⟩ := inFlight_setStage here (.over result)
  exact before.trans (after.symm.cons c)

/-- A reconciliation has failed with an accusation only if that is the answer to its call. -/
def Answered (history : List Event) (s : Concurrent σ) : Prop :=
  ∀ i failure, s.jobs[i]? = some ⟨.updateOrders, .over (.error failure)⟩ → failure.accuses →
    ∃ now at_, .answered i now at_ .getOrders (.error failure) ∈ history

theorem Answered.of_other {history' : List Event} (ha : Answered history s)
    (grows : ∀ e ∈ history, e ∈ history') (others : ∀ j, j ≠ i → t.jobs[j]? = s.jobs[j]?)
    (self : ∀ failure, t.jobs[i]? = some ⟨.updateOrders, .over (.error failure)⟩ →
      failure.accuses → ∃ now at_, .answered i now at_ .getOrders (.error failure) ∈ history') :
    Answered history' t := by
  intro j failure ended accuses
  by_cases same : j = i
  · obtain rfl := same
    exact self failure ended accuses
  · rw [others j same] at ended
    obtain ⟨now, at_, mem⟩ := ha j failure ended accuses
    exact ⟨now, at_, grows _ mem⟩

/-- A task that goes on does not fail. -/
theorem Answered.opened {u : Concurrent σ} (ha : Answered history s) (enters : Enters s i task u)
    (opens : Opened env u i task t) (event : Event) : Answered (event :: history) t := by
  obtain ⟨stage, here, outside⟩ := enters.here
  rw [← enters.jobs_eq] at here
  apply ha.of_other (i := i)
  · intro e mem
    exact List.mem_cons_of_mem event mem
  · intro j other
    rw [opens.job_of_ne other, enters.jobs_eq]
  · intro failure ended
    obtain same | ⟨score, same⟩ | ⟨c, due, same⟩ := opens.stage here
    · rw [ended] at same
      cases same
      cases outside
    · rw [ended] at same
      cases same
    · rw [ended] at same
      cases same

/-- A fetch is answered with an accusation, or with the orders that the investor knows. -/
theorem accusation_answered {c : Call} {r : c.Reply} {now : Nat} {at_ : Timestamp}
    {failure : Failure} {inv : Investor} {d : Desk} {calls : List Call}
    {rest : List ((c : Call) × c.Reply)}
    (served : d.InStep calls (inv.ledger.orders.map Order.id))
    (delivered : d.answers.Perm (⟨c, r⟩ :: rest)) (own : Task.updateOrders = c.task)
    (outcome : (inv.receive now at_ c r).2 = .ok (.error failure)) (accuses : failure.accuses)
    (i : Nat) :
    Event.answered i now at_ c r = .answered i now at_ .getOrders (.error failure) := by
  cases c with
  | getOrders =>
    cases r with
    | error failure' =>
      cases outcome
      rfl
    | ok orders =>
      have same := served.told orders (delivered.mem_iff.mpr List.mem_cons_self)
      rw [Investor.not_accuses_of_ids same outcome] at accuses
      cases accuses
  | _ => cases own

/-- The identifiers of the orders that the investor knows. -/
def known (s : Concurrent σ) : List Int := s.world.investor.ledger.orders.map Order.id

theorem known_opened {u : Concurrent σ} (enters : Enters s i task u)
    (opens : Opened env u i task t) : t.known = s.known := by
  obtain same | ⟨opening, hb⟩ := opens.investor
  · rw [known, same, enters.world_eq, known]
  · rw [known, Investor.ledger_begin hb, enters.world_eq, known]

/-- Investor and exchange are in step until a fault, which leaves the trading region locked. -/
structure Accounts (desk : σ → Desk) (history : List Event) (s : Concurrent σ) : Prop where
  inStep : s.fault = none → (desk s.world.exchange).InStep s.inFlight s.known
  locked : s.fault ≠ none → s.trading.holder ≠ none
  answered : Answered history s

theorem Accounts.opened {u : Concurrent σ} (books : env.exchange.KeepsBooks stirs desk)
    (ha : Accounts desk history s) (hg : s.Guarded) (sound : s.fault = none)
    (enters : Enters s i task u) (opens : Opened env u i task t) (event : Event) :
    Accounts desk (event :: history) t := by
  have answered := ha.answered.opened enters opens event
  have ids : t.known = s.known := known_opened enters opens
  have single : t.inFlight.countP Call.isGuarded ≤ 1 :=
    (hg.opened enters opens).countP_inFlight_le .trading
  have inStep : (desk u.world.exchange).InStep u.inFlight s.known := by
    rw [enters.world_eq, inFlight, enters.jobs_eq]
    exact ha.inStep sound
  obtain ⟨stage, here, outside⟩ := enters.here
  rw [← enters.jobs_eq] at here
  cases opens with
  | fault hb =>
    refine ⟨?_, ?_, answered⟩
    · intro sound'
      cases sound'
    · intro _ free
      have held := enters.holder (Investor.region_of_begin_eq_error hb)
      have free' : (u.lock .trading).holder = none := free
      rw [held] at free'
      cases free'
  | @done investor score hb =>
    refine ⟨?_, ?_, answered⟩
    · intro _
      have same := inFlight_of_not_hasEntered
        (s := { u with world := { u.world with investor } }) here outside (.over (.ok score))
      rw [ids, world_close, inFlight_close]
      exact inStep.congr same
    · intro broken
      rw [fault_close, enters.fault_eq] at broken
      exact absurd sound broken
  | @ask c due own hb =>
    refine ⟨?_, ?_, answered⟩
    · intro _
      have more := inFlight_of_not_hasEntered
        (s := { u with world := u.world.ask env c }) here outside (.asking c due)
      rw [ids]
      exact ((inStep.asks c).congr more).acts single (books.note u.world.now c u.world.exchange)
    · intro broken
      rw [fault_setStage, enters.fault_eq] at broken
      exact absurd sound broken

theorem Accounts.settled (books : env.exchange.KeepsBooks stirs desk)
    (ha : Accounts desk history s) (hg : s.Guarded) (sound : s.fault = none) {c : Call}
    {due : Option Nat} (here : s.jobs[i]? = some ⟨task, .asking c due⟩)
    (settles : Settled env s i task c t) :
    Accounts desk
      (.answered i s.world.now (env.wallClock s.world.now) c
        (env.exchange.reply c s.world.exchange).1 :: history) t := by
  obtain ⟨own, holds⟩ := hg i task c due here
  have single : s.inFlight.countP Call.isGuarded ≤ 1 := hg.countP_inFlight_le .trading
  have inStep := ha.inStep sound
  have asked : c ∈ s.inFlight :=
    List.mem_filterMap.mpr ⟨_, List.mem_of_getElem? here, rfl⟩
  -- the answer has been served before it is delivered, and then the exchange goes on
  obtain ⟨d, rest, acts, delivered, acts'⟩ :=
    books.reply (r := (env.exchange.reply c s.world.exchange).1) rfl
      (inStep.underWay.mem_iff.mpr asked)
  have served := inStep.acts single acts
  have outcome : (s.world.settle env c).2 = (s.world.investor.receive s.world.now
      (env.wallClock s.world.now) c (env.exchange.reply c s.world.exchange).1).2 := rfl
  refine ⟨?_, ?_, ?_⟩
  · intro sound'
    cases settles with
    | fault h => cases sound'
    | @ends w result h =>
      obtain rfl : (s.world.settle env c).1 = w := congrArg Prod.fst h
      have left := inFlight_of_asking here result
      have fewer : (s.setStage i (.over result)).inFlight.countP Call.isGuarded ≤ 1 := by
        rw [left.countP_eq, List.countP_cons] at single
        omega
      have ends := (served.delivers single delivered left).acts fewer acts'
      have ids := s.world.investor.ids_receive s.world.now (env.wallClock s.world.now) c
        (env.exchange.reply c s.world.exchange).1
      rw [known, world_close, inFlight_close]
      exact ids ▸ ends
  · intro broken free
    cases settles with
    | fault h =>
      rw [h] at outcome
      have held := holds .trading (own ▸ Investor.region_of_receive_eq_error outcome.symm)
      have free' : (s.lock .trading).holder = none := free
      rw [held] at free'
      cases free'
    | ends h =>
      rw [fault_close] at broken
      exact broken sound
  · apply ha.answered.of_other (i := i)
    · intro e mem
      exact List.mem_cons_of_mem _ mem
    · intro j other
      exact settles.job_of_ne other
    · intro failure ended accuses
      obtain ⟨fault, -, -, asking⟩ | ⟨result, h, ends⟩ := settles.stage here
      · rw [ended] at asking
        cases asking
      · rw [ended] at ends
        cases ends
        rw [h] at outcome
        have answer := accusation_answered served delivered own outcome.symm accuses i
        refine ⟨s.world.now, env.wallClock s.world.now, ?_⟩
        rw [answer]
        exact List.mem_cons_self

theorem accounts_new {w : World σ} (start : desk w.exchange = .empty)
    (unknown : w.investor.ledger.orders = []) (tasks : List Task) :
    Accounts desk [] (new w tasks) := by
  have fresh : ∀ job ∈ (new w tasks).jobs, job.stage = .fresh := by
    intro job mem
    obtain ⟨task, -, rfl⟩ := List.mem_map.mp mem
    rfl
  have idle : (new w tasks).inFlight = [] := by
    apply List.filterMap_eq_nil_iff.mpr
    intro job mem
    rw [Job.call?, fresh job mem]
  have nothing : (new w tasks).known = [] := by
    have none : (new w tasks).world.investor.ledger.orders = [] := unknown
    rw [known, none]
    rfl
  refine ⟨?_, ?_, ?_⟩
  · intro _
    have empty : desk (new w tasks).world.exchange = .empty := start
    rw [empty, idle, nothing]
    exact ⟨.refl _, rfl, by simp [Desk.empty]⟩
  · intro broken
    exact absurd rfl broken
  · intro i failure ended
    cases fresh _ (List.mem_of_getElem? ended)

/-- A task waits for a moment or for its region, and nothing else has changed but a lock. -/
theorem Accounts.waits {u : Concurrent σ} (ha : Accounts desk history s) (sound : s.fault = none)
    {stage stage' : Stage} (here : s.jobs[i]? = some ⟨task, stage⟩) (outside : stage.isOutside)
    (jobs : u.jobs = s.jobs) (investor : u.world.investor = s.world.investor)
    (exchange : u.world.exchange = s.world.exchange) (fault : u.fault = s.fault)
    (outside' : stage'.hasEntered = false) : Accounts desk history (u.setStage i stage') := by
  have here' : u.jobs[i]? = some ⟨task, stage⟩ := by rw [jobs]; exact here
  refine ⟨?_, ?_, ?_⟩
  · intro _
    have same := inFlight_of_not_hasEntered here' (Stage.not_hasEntered_of_isOutside outside) stage'
    rw [call?_of_not_hasEntered outside', inFlight, jobs] at same
    rw [known, world_setStage, exchange, investor]
    exact (ha.inStep sound).congr same
  · intro broken
    rw [fault_setStage, fault] at broken
    exact absurd sound broken
  · apply ha.answered.of_other (i := i)
    · intro e mem
      exact mem
    · intro j other
      rw [job_setStage_of_ne u other, jobs]
    · intro failure ended
      rw [job_setStage here'] at ended
      cases ended
      cases outside'

theorem accounts_step (books : env.exchange.KeepsBooks stirs desk) {event : Option Event}
    (h : Step env stirs s event t) (hg : s.Guarded) (ha : Accounts desk history s) :
    Accounts desk (event.toList ++ history) t := by
  have single : s.inFlight.countP Call.isGuarded ≤ 1 := hg.countP_inFlight_le .trading
  cases h with
  | wait now h => exact ⟨ha.inStep, ha.locked, ha.answered⟩
  | stir exchange h =>
    refine ⟨?_, ha.locked, ha.answered⟩
    intro sound
    exact (ha.inStep sound).acts single (books.stirs h)
  | move i h shows =>
    obtain ⟨sound, moves⟩ := moves_of_step h shows
    cases moves with
    | @nap task drawn wake here =>
      exact ha.waits (u := { s with world := { s.world with drawn } }) sound here
        rfl rfl rfl rfl rfl rfl
    | queue here outside guarded held =>
      exact ha.waits sound here outside (jobs_setLock _ _ _) (by rw [world_setLock])
        (by rw [world_setLock]) (fault_setLock _ _ _) rfl
    | enter enters opens => exact ha.opened books hg sound enters opens _
    | settle here settles => exact ha.settled books hg sound here settles

theorem accounts_of_runs (books : env.exchange.KeepsBooks stirs desk) {w : World σ}
    (start : desk w.exchange = .empty) (unknown : w.investor.ledger.orders = [])
    {tasks : List Task} (run : Runs env stirs w tasks history s) : Accounts desk history s := by
  induction run with
  | refl => exact accounts_new start unknown tasks
  | step before last ih => exact accounts_step books last (guarded_of_runs before) ih

/-- No call about the orders is under way while the trading region is free. -/
theorem Guarded.countP_inFlight_eq_zero (hg : s.Guarded) (free : s.trading.holder = none) :
    s.inFlight.countP Call.isGuarded = 0 := by
  apply List.countP_eq_zero.mpr
  intro c mem guarded
  obtain ⟨⟨task, stage⟩, job, calls⟩ := List.mem_filterMap.mp mem
  obtain ⟨i, inside, found⟩ := List.mem_iff_getElem.mp job
  have here : s.jobs[i]? = some ⟨task, stage⟩ := List.getElem?_eq_some_iff.mpr ⟨inside, found⟩
  cases stage with
  | asking c' due =>
    obtain rfl : c' = c := Option.some.inj calls
    obtain ⟨own, holds⟩ := hg i task c' due here
    have trading : task.region = some .trading := by
      rw [own]
      exact of_decide_eq_true guarded
    have held : s.trading.holder = some i := holds .trading trading
    rw [free] at held
    cases held
  | _ => cases calls

/-- **An exchange that keeps books is not accused**, unless by itself: a reconciliation says that it
has lost an order only if that is the answer to its own call. Whenever the trading region is free,
investor and exchange know the same orders. -/
theorem exchange_not_accused (books : env.exchange.KeepsBooks stirs desk) {w : World σ}
    (start : desk w.exchange = .empty) (unknown : w.investor.ledger.orders = [])
    {tasks : List Task} (run : Runs env stirs w tasks history s) :
    (∀ i failure, s.jobs[i]? = some ⟨.updateOrders, .over (.error failure)⟩ → failure.accuses →
      ∃ now at_, .answered i now at_ .getOrders (.error failure) ∈ history) ∧
    (s.trading.holder = none →
      (desk s.world.exchange).book.map Order.id =
        s.world.investor.ledger.orders.map Order.id) := by
  have accounts : Accounts desk history s := accounts_of_runs books start unknown run
  refine ⟨accounts.answered, ?_⟩
  intro free
  have sound : s.fault = none := by
    by_contra broken
    exact accounts.locked broken free
  have inStep := accounts.inStep sound
  have nothing : (desk s.world.exchange).owed = [] := by
    have idle := (guarded_of_runs run).countP_inFlight_eq_zero free
    have bound := Desk.length_filterMap_acceptedId_le (desk s.world.exchange).answers
    rw [← inStep.underWay.countP_eq, List.countP_append] at idle
    apply List.eq_nil_of_length_eq_zero
    unfold Desk.owed
    omega
  have ids := inStep.ids
  rw [nothing, List.append_nil] at ids
  exact ids

/-- Beside an exchange that serves at once, and takes so long to answer. -/
def besidePrompt (serve : (c : Call) → List Order → c.Reply × List Order) (milliseconds : Nat) :
    Environment Desk where
  exchange := .prompt serve milliseconds
  wallClock _ := .epoch
  delays _ := 0

/-- A fetch is started while the acceptance of an order is on its way. -/
theorem exchange_not_accused_of_placement_and_fetch :
    ∃ inv history s,
      Investor.new "investor" ⟨500, 0, 5, 100, 1⟩ .standard .standard (.ofSeed 0) = .ok inv ∧
      (besidePrompt (Exchange.fair 500).reply 10).exchange.KeepsBooks Desk.Acts id ∧
      Runs (besidePrompt (Exchange.fair 500).reply 10) Desk.Acts (.new inv .empty)
        [.addOrder .buy 5 100, .updateOrders] history s ∧
      s.trading.holder = none ∧
      s.world.investor.ledger.orders.map Order.id = [1] ∧
      s.world.exchange.book.map Order.id = s.world.investor.ledger.orders.map Order.id := by
  have rehearsal : (rehearse (besidePrompt (Exchange.fair 500).reply 10) ⟨500, 0, 5, 100, 1⟩
      .standard .empty [.addOrder .buy 5 100, .updateOrders]
      [.go 0, .go 1, .pass 10, .go 0, .go 1, .pass 10, .go 1]).any fun r =>
        decide (r.2.trading.holder = none) &&
        decide (r.2.world.investor.ledger.orders.map Order.id = [1]) := by decide
  obtain ⟨inv, history, s, hi, run, found⟩ := exists_run_of_rehearse Desk.Acts rehearsal
  simp only [Bool.and_eq_true, decide_eq_true_eq] at found
  obtain ⟨free, placed⟩ := found
  have books := prompt_keepsBooks (serves_fair 500) 10
  have unknown : inv.ledger.orders = [] := by
    rw [(Investor.new_eq_ok hi).1]
    rfl
  have agree := (exchange_not_accused books rfl unknown run).2 free
  exact ⟨inv, history, s, hi, books, run, free, placed, agree⟩

/-- A fair exchange, but for its answers to fetches. -/
def accusing : (c : Call) → List Order → c.Reply × List Order
  | .getOrders, book => (.error (.sellOrderVanished 3), book)
  | c, book => (Exchange.fair 500).reply c book

theorem serves_accusing (c : Call) (book : List Order) :
    Desk.Serves book c (accusing c book).1 (accusing c book).2 := by
  cases c with
  | getOrders => exact .refuses
  | _ => exact serves_fair 500 _ book

/-- A failure of any kind has no effect, but it is what the reconciliation returns. -/
theorem exchange_accused_by_itself :
    ∃ inv history s,
      Investor.new "investor" ⟨500, 0, 5, 100, 1⟩ .standard .standard (.ofSeed 0) = .ok inv ∧
      (besidePrompt accusing 10).exchange.KeepsBooks Desk.Acts id ∧
      Runs (besidePrompt accusing 10) Desk.Acts (.new inv .empty) [.updateOrders] history s ∧
      s.jobs[0]? = some ⟨.updateOrders, .over (.error (.sellOrderVanished 3))⟩ := by
  have rehearsal : (rehearse (besidePrompt accusing 10) ⟨500, 0, 5, 100, 1⟩ .standard .empty
      [.updateOrders] [.go 0, .pass 10, .go 0]).any fun r =>
        decide (r.2.jobs[0]? = some ⟨.updateOrders, .over (.error (.sellOrderVanished 3))⟩) := by
    decide
  obtain ⟨inv, history, s, hi, run, found⟩ := exists_run_of_rehearse Desk.Acts rehearsal
  exact ⟨inv, history, s, hi, prompt_keepsBooks serves_accusing 10, run, of_decide_eq_true found⟩

end Concurrent

end TradingLoad
