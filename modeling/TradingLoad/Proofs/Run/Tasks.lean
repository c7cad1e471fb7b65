import TradingLoad.Investor.Lifecycle
import TradingLoad.Proofs.Ledger.History

namespace TradingLoad

namespace Composite

variable {τ : Type}

theorem addAll_eq_ok {c d : Composite τ} {tasks : List τ} (h : c.addAll tasks = .ok d) :
    d = { c with tasks := c.tasks ++ tasks } := by
  induction tasks generalizing c with
  | nil =>
    obtain rfl : c = d := by simpa [addAll, pure, Except.pure] using h
    simp
  | cons task tasks ih =>
    cases ha : c.add task with
    | error failure => simp [addAll, List.foldlM_cons, ha, bind, Except.bind] at h
    | ok e =>
      have rest : e.addAll tasks = .ok d := by
        simpa [addAll, List.foldlM_cons, ha, bind, Except.bind] using h
      obtain ⟨-, rfl⟩ := add_eq_ok_iff.mp ha
      simpa using ih rest

/-- A composite stops in the world that its first task leaves, or goes on from there. -/
theorem runTasks_cons {σ : Type} (name : τ → String)
    (perform : σ → τ → σ × Checked Ending) (r : Report) (task : τ) (tasks : List τ) (s : σ) :
    (runTasks name perform r (task :: tasks) s).1 = (perform s task).1 ∨
      ∃ r', (runTasks name perform r (task :: tasks) s).1 =
        (runTasks name perform r' tasks (perform s task).1).1 := by
  cases h : perform s task with
  | mk t ending =>
    rcases ending with fault | (_ | (failure | score))
    · exact .inl (by simp only [runTasks, h])
    · exact .inl (by simp only [runTasks, h])
    · exact .inl (by simp only [runTasks, h])
    · cases total : Checked.addNat r.score score with
      | error fault => exact .inl (by simp only [runTasks, h, total])
      | ok sum =>
        right
        refine ⟨{ r with score := sum, completed := r.completed + 1 }, ?_⟩
        simp only [runTasks, h, total]

end Composite

/-- The task that makes a call. -/
def Call.task : Call → Task
  | .top => .top
  | .signup => .signup
  | .signin => .signin
  | .info _ => .info
  | .getOrders => .updateOrders
  | .addOrder side amount price => .addOrder side amount price
  | .deleteOrder id => .removeOrder id

namespace Investor

variable {inv inv' : Investor}

section

variable {account : String} {profile : InvestorProfile} {rewards : Rewards} {timing : Timing}
  {source : Random.Stream}

/-- There is a new investor exactly if the orders of a run can be counted and laid out. -/
theorem new_eq_ok_iff : new account profile rewards timing source = .ok inv ↔
    (∃ most, timing.maxOrders = .ok most ∧ InMemory (most * Order.bytes)) ∧
      inv = {
        account, rewards, timing
        ledger := .new profile.credit profile.inventory
        lastOrderAt := none
        trader := { unitAmount := profile.unitAmount, referencePrice := profile.unitPrice, source }
        polling := .initial
        market := .unknown
        pending := []
        signedIn := false
        started := false } := by
  constructor
  · intro h
    obtain ⟨most, counted, h⟩ := Checked.bind_eq_ok_iff.mp h
    obtain ⟨ledger, roomy, h⟩ := Checked.bind_eq_ok_iff.mp h
    obtain ⟨⟨⟩, laidOut, roomy⟩ := Checked.bind_eq_ok_iff.mp roomy
    obtain rfl := Except.ok.inj roomy
    obtain rfl := Except.ok.inj h
    exact ⟨⟨most, counted, Checked.layOut_eq_ok_iff.mp laidOut⟩, rfl⟩
  · rintro ⟨⟨most, counted, room⟩, rfl⟩
    have laidOut := Checked.layOut_eq_ok_iff.mpr room
    unfold new Ledger.newFor
    rw [counted]
    simp only [bind, Except.bind, laidOut]
    rfl

theorem new_eq_ok (h : new account profile rewards timing source = .ok inv) :
    inv.ledger = .new profile.credit profile.inventory ∧ inv.pending = [] ∧
      inv.trader =
        { unitAmount := profile.unitAmount, referencePrice := profile.unitPrice, source } := by
  obtain ⟨-, rfl⟩ := new_eq_ok_iff.mp h
  exact ⟨rfl, rfl, rfl⟩

theorem account_of_new (h : new account profile rewards timing source = .ok inv) :
    inv.account = account := by
  obtain ⟨-, rfl⟩ := new_eq_ok_iff.mp h
  rfl

theorem timing_of_new (h : new account profile rewards timing source = .ok inv) :
    inv.timing = timing := by
  obtain ⟨-, rfl⟩ := new_eq_ok_iff.mp h
  rfl

theorem rewards_of_new (h : new account profile rewards timing source = .ok inv) :
    inv.rewards = rewards := by
  obtain ⟨-, rfl⟩ := new_eq_ok_iff.mp h
  rfl

end

/-- The first composite ends with a decision, like every other one. -/
theorem start_eq_ok {c : Composite Task} (h : inv.start = (inv', .ok c)) :
    inv.started = false ∧ inv' = { inv with started := true } ∧
      c.tasks = startTasks ++ [.decision] := by
  by_cases hs : inv.started
  · simp [start, startUndecided, hs, Except.bind] at h
  · simp only [start, startUndecided, hs, Bool.false_eq_true, if_false, Prod.mk.injEq] at h
    obtain ⟨rfl, hc⟩ := h
    cases ha : (Composite.empty startCapacity).addAll startTasks with
    | error failure => simp [ha, Except.bind] at hc
    | ok d =>
      have last : d.add .decision = .ok c := by simpa [ha, Except.bind] using hc
      obtain rfl := Composite.addAll_eq_ok ha
      obtain ⟨-, rfl⟩ := Composite.add_eq_ok_iff.mp last
      exact ⟨by simpa using hs, rfl, rfl⟩

/-- The composite of a tick is a poll, all that is queued, and a decision. -/
theorem next_eq_ok {retired : Bool} {c : Composite Task}
    (h : inv.next retired = (inv', .ok (some c))) :
    retired = false ∧ inv' = { inv with pending := [] } ∧
      c.tasks = .info :: (inv.pending ++ [.decision]) := by
  cases retired with
  | true => simp [next, nextUndecided, Except.bind] at h
  | false =>
    simp only [next, nextUndecided, Bool.false_eq_true, if_false, Prod.mk.injEq] at h
    obtain ⟨rfl, hc⟩ := h
    cases ha : (Composite.empty (2 + inv.pending.length)).addAll (.info :: inv.pending) with
    | error failure => simp [ha, Except.map, Except.bind] at hc
    | ok d =>
      simp only [ha, Except.map, Except.bind] at hc
      cases hd : d.add .decision with
      | error failure => simp [hd] at hc
      | ok e =>
        obtain rfl : e = c := by simpa [hd] using hc
        obtain rfl := Composite.addAll_eq_ok ha
        obtain ⟨-, rfl⟩ := Composite.add_eq_ok_iff.mp hd
        exact ⟨rfl, rfl, rfl⟩

/-- What a decision looks at: the orders of the moment, the balances that are stored. -/
theorem situation_eq_ok {view : Situation} (h : inv.situation = .ok view) :
    view.orders = inv.ledger.orders ∧
      view.availableCredit = inv.ledger.credit - inv.ledger.reservedCredit ∧
      view.availableInventory = inv.ledger.inventory - inv.ledger.reservedInventory := by
  obtain ⟨credit, hc, h⟩ := Checked.bind_eq_ok_iff.mp h
  obtain ⟨inventory, hi, h⟩ := Checked.bind_eq_ok_iff.mp h
  obtain ⟨-, hc⟩ := Checked.sub_eq_ok_iff.mp hc
  obtain ⟨-, hi⟩ := Checked.sub_eq_ok_iff.mp hi
  obtain rfl := Except.ok.inj h
  exact ⟨rfl, hc.symm, hi.symm⟩

/-- What a decision queues for the next tick. -/
def followUps (d : Decision) : List Task :=
  match taskOf d with
  | some task => [task, .updateOrders]
  | none => []

/-- A decision changes the trader and queues what follows from it, or does not take place. -/
theorem decide_eq_ok {retired : Bool} {now : Nat} (h : inv.decide retired now = .ok inv') :
    inv' = inv ∨
      ∃ s d trader, inv.situation = .ok s ∧ inv.trader.decide s = .ok (d, trader) ∧
        inv' = { inv with trader, pending := inv.pending ++ followUps d } := by
  unfold decide at h
  split at h
  · exact .inl (Except.ok.inj h).symm
  · obtain ⟨s, hs, h⟩ := Checked.bind_eq_ok_iff.mp h
    obtain ⟨⟨d, trader⟩, hd, h⟩ := Checked.bind_eq_ok_iff.mp h
    refine .inr ⟨s, d, trader, hs, hd, ?_⟩
    cases ht : taskOf d with
    | none => simp_all [followUps, pure, Except.pure]
    | some task =>
      obtain rfl : _ = inv' := by simpa [ht, pure, Except.pure] using h
      simp [push, followUps, ht]

/-- A task that makes a call has changed nothing before. -/
theorem begin_eq_ask {retired : Bool} {now : Nat} {task : Task} {c : Call}
    (h : inv.begin retired now task = .ok (inv', .ask c)) : inv' = inv ∧ task = c.task := by
  cases task with
  | top =>
    obtain ⟨rfl, rfl⟩ : inv = inv' ∧ Call.top = c := by simpa [begin] using h
    exact ⟨rfl, rfl⟩
  | signup =>
    by_cases hs : inv.signedIn
    · simp [begin, hs] at h
    · obtain ⟨rfl, rfl⟩ : inv = inv' ∧ Call.signup = c := by simpa [begin, hs] using h
      exact ⟨rfl, rfl⟩
  | signin =>
    obtain ⟨rfl, rfl⟩ : inv = inv' ∧ Call.signin = c := by simpa [begin] using h
    exact ⟨rfl, rfl⟩
  | info =>
    by_cases hd : retired || !inv.polling.isDue now
    · simp [begin, hd] at h
    · obtain ⟨rfl, rfl⟩ : inv = inv' ∧ Call.info inv.polling.cursor = c := by
        simpa [begin, hd] using h
      exact ⟨rfl, rfl⟩
  | updateOrders =>
    obtain ⟨rfl, rfl⟩ : inv = inv' ∧ Call.getOrders = c := by simpa [begin] using h
    exact ⟨rfl, rfl⟩
  | decision =>
    obtain ⟨_, _, h⟩ := Checked.bind_eq_ok_iff.mp h
    simp [pure, Except.pure] at h
  | addOrder side amount price =>
    obtain ⟨rfl, rfl⟩ : inv = inv' ∧ Call.addOrder side amount price = c := by
      simpa [begin] using h
    exact ⟨rfl, rfl⟩
  | removeOrder id =>
    by_cases hr : (inv.ledger.find? id).any Order.isRemoved
    · simp [begin, hr] at h
    · obtain ⟨rfl, rfl⟩ : inv = inv' ∧ Call.deleteOrder id = c := by simpa [begin, hr] using h
      exact ⟨rfl, rfl⟩

/-- Without a call only a decision changes the investor. Orders are not fetched without a call. -/
theorem begin_eq_done {retired : Bool} {now score : Nat} {task : Task}
    (h : inv.begin retired now task = .ok (inv', .done score)) :
    task ≠ .updateOrders ∧
      (inv' = inv ∨ task = .decision ∧ inv.decide retired now = .ok inv') := by
  cases task with
  | top => simp [begin] at h
  | signup => by_cases hs : inv.signedIn <;> simp_all [begin]
  | signin => simp [begin] at h
  | info => by_cases hd : retired || !inv.polling.isDue now <;> simp_all [begin]
  | updateOrders => simp [begin] at h
  | decision =>
    obtain ⟨_, hd, h⟩ := Checked.bind_eq_ok_iff.mp h
    obtain ⟨rfl, -⟩ : _ = inv' ∧ 0 = score := by simpa [pure, Except.pure] using h
    exact ⟨by simp, .inr ⟨rfl, hd⟩⟩
  | addOrder side amount price => simp [begin] at h
  | removeOrder id =>
    by_cases hr : (inv.ledger.find? id).any Order.isRemoved <;> simp_all [begin]

/-- Nothing is earned without a call. -/
theorem score_of_done {retired : Bool} {now score : Nat} {task : Task}
    (h : inv.begin retired now task = .ok (inv', .done score)) : score = 0 := by
  cases task with
  | top => simp [begin] at h
  | signup => by_cases hs : inv.signedIn <;> simp_all [begin]
  | signin => simp [begin] at h
  | info => by_cases hd : retired || !inv.polling.isDue now <;> simp_all [begin]
  | updateOrders => simp [begin] at h
  | decision =>
    obtain ⟨decided, _, h⟩ := Checked.bind_eq_ok_iff.mp h
    have both : decided = inv' ∧ 0 = score := by simpa [pure, Except.pure] using h
    exact both.2.symm
  | addOrder side amount price => simp [begin] at h
  | removeOrder id =>
    by_cases hr : (inv.ledger.find? id).any Order.isRemoved <;> simp_all [begin]

/-- Before its call a task changes the trader and the queue at most. -/
theorem begin_eq_ok {retired : Bool} {now : Nat} {task : Task} {o : Opening}
    (h : inv.begin retired now task = .ok (inv', o)) :
    ∃ trader pending, inv' = { inv with trader, pending } := by
  cases o with
  | ask c => exact ⟨_, _, (begin_eq_ask h).1⟩
  | done score =>
    obtain ⟨-, rfl | ⟨-, hd⟩⟩ := begin_eq_done h
    · exact ⟨_, _, rfl⟩
    · obtain rfl | ⟨s, d, trader, -, -, rfl⟩ := decide_eq_ok hd
      · exact ⟨_, _, rfl⟩
      · exact ⟨_, _, rfl⟩

/-- The next poll is made when it is due, and not before. -/
theorem isDue_of_begin_info {retired : Bool} {now : Nat} {c : Call}
    (h : inv.begin retired now .info = .ok (inv', .ask c)) : inv.polling.isDue now := by
  by_contra due
  have early : inv.polling.isDue now = false := by simpa using due
  simp [begin, early] at h

theorem ledger_begin {retired : Bool} {now : Nat} {task : Task} {o : Opening}
    (h : inv.begin retired now task = .ok (inv', o)) : inv'.ledger = inv.ledger := by
  cases o with
  | ask c => rw [(begin_eq_ask h).1]
  | done score =>
    obtain ⟨-, rfl | ⟨-, hd⟩⟩ := begin_eq_done h
    · rfl
    · obtain rfl | ⟨s, d, trader, -, -, rfl⟩ := decide_eq_ok hd <;> rfl

theorem timing_begin {retired : Bool} {now : Nat} {task : Task} {o : Opening}
    (h : inv.begin retired now task = .ok (inv', o)) : inv'.timing = inv.timing := by
  obtain ⟨trader, pending, rfl⟩ := begin_eq_ok h
  rfl

theorem rewards_begin {retired : Bool} {now : Nat} {task : Task} {o : Opening}
    (h : inv.begin retired now task = .ok (inv', o)) : inv'.rewards = inv.rewards := by
  obtain ⟨trader, pending, rfl⟩ := begin_eq_ok h
  rfl

/-- Before its call a task only adds to the queue. -/
theorem pending_begin {retired : Bool} {now : Nat} {task : Task} {o : Opening}
    (h : inv.begin retired now task = .ok (inv', o)) : inv.pending ⊆ inv'.pending := by
  cases o with
  | ask c =>
    rw [(begin_eq_ask h).1]
    exact List.Subset.refl _
  | done score =>
    obtain ⟨-, rfl | ⟨-, hd⟩⟩ := begin_eq_done h
    · exact List.Subset.refl _
    · obtain rfl | ⟨s, d, trader, -, -, rfl⟩ := decide_eq_ok hd
      · exact List.Subset.refl _
      · exact List.subset_append_left _ _

/-- What a reply does to the ledger. -/
def operationOf (at_ : Timestamp) : (c : Call) → c.Reply → Option Ledger.Operation
  | .addOrder _ _ _, .ok o => some (.place o)
  | .deleteOrder id, .ok _ => some (.close id at_)
  | .getOrders, .ok orders => some (.reconcile orders at_)
  | _, _ => none

variable (inv : Investor) (now : Nat) (at_ : Timestamp)

theorem ledger_observe (info : InfoSnapshot) : (inv.observe now info).ledger = inv.ledger := by
  simp only [observe]
  split <;> rfl

theorem ledger_receive (c : Call) (r : c.Reply) :
    (inv.receive now at_ c r).1.ledger = inv.ledger.after (operationOf at_ c r).toList := by
  cases c with
  | top => cases r <;> rfl
  | signup => cases r <;> rfl
  | signin => cases r <;> rfl
  | info cursor =>
    cases r with
    | error failure => rfl
    | ok info => exact ledger_observe inv now info
  | getOrders => cases r <;> rfl
  | addOrder side amount price => cases r <;> rfl
  | deleteOrder id => cases r <;> rfl

/-- What a reply may change. -/
theorem receive_eq (c : Call) (r : c.Reply) :
    ∃ ledger lastOrderAt polling market pending signedIn, (inv.receive now at_ c r).1 =
      { inv with ledger, lastOrderAt, polling, market, pending, signedIn } := by
  cases c with
  | info cursor =>
    cases r with
    | error failure => exact ⟨_, _, _, _, _, _, rfl⟩
    | ok info =>
      simp only [receive, observe]
      split <;> exact ⟨_, _, _, _, _, _, rfl⟩
  | _ => cases r <;> exact ⟨_, _, _, _, _, _, rfl⟩

/-- A reply leaves the trader as it is. -/
theorem trader_receive (c : Call) (r : c.Reply) :
    (inv.receive now at_ c r).1.trader = inv.trader := by
  obtain ⟨ledger, lastOrderAt, polling, market, pending, signedIn, same⟩ :=
    inv.receive_eq now at_ c r
  rw [same]

theorem timing_receive (c : Call) (r : c.Reply) :
    (inv.receive now at_ c r).1.timing = inv.timing := by
  obtain ⟨ledger, lastOrderAt, polling, market, pending, signedIn, same⟩ :=
    inv.receive_eq now at_ c r
  rw [same]

theorem rewards_receive (c : Call) (r : c.Reply) :
    (inv.receive now at_ c r).1.rewards = inv.rewards := by
  obtain ⟨ledger, lastOrderAt, polling, market, pending, signedIn, same⟩ :=
    inv.receive_eq now at_ c r
  rw [same]

/-- Only a snapshot sets the time of the next poll. -/
theorem nextPollAt_receive (c : Call) (r : c.Reply) :
    (inv.receive now at_ c r).1.polling.nextPollAt =
      match c, r with
      | .info _, .ok _ => some (now + inv.timing.pollingIntervalMs)
      | _, _ => inv.polling.nextPollAt := by
  cases c with
  | info cursor =>
    cases r with
    | error failure => rfl
    | ok info =>
      simp only [receive, observe]
      split <;> rfl
  | _ => cases r <;> rfl

/-- A reply queues a reconciliation if it reports trades, and nothing else. -/
theorem pending_receive (c : Call) (r : c.Reply) :
    (inv.receive now at_ c r).1.pending = inv.pending ++
      match c, r with
      | .info _, .ok info => if info.hasTradedOrders then [.updateOrders] else []
      | _, _ => [] := by
  cases c with
  | info cursor =>
    cases r with
    | error failure => exact (List.append_nil _).symm
    | ok info =>
      simp only [receive, observe]
      split
      · rfl
      · exact (List.append_nil _).symm
  | _ => cases r <;> exact (List.append_nil _).symm

end Investor

end TradingLoad
