import TradingLoad.Proofs.Exchange.Honest
import TradingLoad.Proofs.Policy.Sizing
import TradingLoad.Proofs.Run.Agenda

namespace TradingLoad

/-- The account can pay for its orders, whatever an honest exchange does with them. -/
structure Covered (credit inventory : Int) (orders : List Order) : Prop where
  nodup : (orders.map Order.id).Nodup
  valid : ∀ o ∈ orders, o.Valid
  credit : 0 ≤ credit + (Totals.exact orders).freeCredit
  inventory : 0 ≤ inventory + (Totals.exact orders).freeInventory

namespace Covered

variable {credit inventory : Int} {orders later : List Order}

theorem evolve (h : Covered credit inventory orders) (k : Evolves orders later) :
    Covered credit inventory later := by
  obtain ⟨freeCredit, freeInventory⟩ := k.free_le h.valid
  refine ⟨?_, k.valid_iff.mp h.valid, ?_, ?_⟩
  · rw [k.ids]
    exact h.nodup
  · have := h.credit
    omega
  · have := h.inventory
    omega

/-- An order that is paid for can be placed. -/
theorem place {o : Order} (h : Covered credit inventory orders) (resting : o.isOpen)
    (valid : o.Valid) (fresh : o.id ∉ orders.map Order.id)
    (buy : o.side = .buy → o.limitValue ≤ credit + (Totals.exact orders).freeCredit)
    (sell : o.side = .sell → o.amount ≤ inventory + (Totals.exact orders).freeInventory) :
    Covered credit inventory (orders ++ [o]) := by
  obtain ⟨freeCredit, freeInventory⟩ := Totals.free_of_isOpen resting
  have hc := h.credit
  have hi := h.inventory
  refine ⟨?_, ?_, ?_, ?_⟩
  · rw [List.map_append, List.nodup_append]
    refine ⟨h.nodup, by simp, ?_⟩
    intro id known id' new
    obtain rfl := List.mem_singleton.mp new
    exact fun same => fresh (same ▸ known)
  · intro c hc
    obtain hc | hc := List.mem_append.mp hc
    · exact h.valid c hc
    · obtain rfl := List.mem_singleton.mp hc
      exact valid
  · rw [Totals.exact_append, Totals.freeCredit_add, freeCredit]
    cases hs : o.side with
    | buy =>
      have := buy hs
      simp only [if_true]
      omega
    | sell =>
      simp only [reduceCtorEq, if_false]
      omega
  · rw [Totals.exact_append, Totals.freeInventory_add, freeInventory]
    cases hs : o.side with
    | buy =>
      simp only [reduceCtorEq, if_false]
      omega
    | sell =>
      have := sell hs
      simp only [if_true]
      omega

/-- An open order can be closed. -/
theorem close {id : Int} {o : Order} (at_ : Timestamp) (h : Covered credit inventory orders)
    (found : orders.find? (·.id = id) = some o) (resting : o.isOpen) :
    Covered credit inventory (Ledger.closeFirst id at_ orders) := by
  have valid := h.valid o (List.mem_of_find?_eq_some found)
  obtain ⟨freeCredit, freeInventory⟩ := Ledger.free_le_closeFirst at_ found resting valid
  refine ⟨?_, Ledger.valid_closeFirst id at_ h.valid, ?_, ?_⟩
  · rw [Ledger.ids_closeFirst]
    exact h.nodup
  · have := h.credit
    omega
  · have := h.inventory
    omega

end Covered

namespace Course

variable {σ : Type} {env : Environment σ} {stirs : σ → σ → Prop} {book : σ → List Order}
  {credit inventory : Int}

/-- The orders are asked for, or are about to be because an order task has gone before. -/
def IsBehind (s : Course σ) : Prop :=
  s.calling = some .getOrders ∨ s.calling = none ∧ s.agenda = [.updateOrders, .decision]

/-- The account can pay for its orders, the ledger knows them as they were at some moment, and what
is yet to be placed can be paid for. -/
structure Solvent (book : σ → List Order) (credit inventory : Int) (s : Course σ) : Prop where
  endowment : s.world.investor.ledger.initialCredit = credit ∧
    s.world.investor.ledger.initialInventory = inventory
  covered : Covered credit inventory (book s.world.exchange)
  follows : Evolves s.world.investor.ledger.orders (book s.world.exchange)
  fresh : ¬ s.IsBehind →
    Totals.exact s.world.investor.ledger.orders = s.world.investor.ledger.shown
  available : 0 ≤ credit + s.world.investor.ledger.shown.freeCredit ∧
    0 ≤ inventory + s.world.investor.ledger.shown.freeInventory
  trader : s.world.investor.trader.Sound
  queued : ∀ task ∈ s.world.investor.pending,
    task.Fits (inventory + (Totals.exact (book s.world.exchange)).freeInventory)
  agenda : ∀ task ∈ s.agenda,
    task.Fits (inventory + (Totals.exact (book s.world.exchange)).freeInventory)
  calling : ∀ c ∈ s.calling,
    c.task.Fits (inventory + (Totals.exact (book s.world.exchange)).freeInventory)

/-- What the exchange does on its own keeps an investor solvent. -/
theorem Solvent.evolve {w : World σ} {calling : Option Call} {agenda : List Task} {x : σ}
    (hs : Solvent book credit inventory ⟨w, calling, agenda⟩)
    (k : Evolves (book w.exchange) (book x)) :
    Solvent book credit inventory ⟨{ w with exchange := x }, calling, agenda⟩ := by
  obtain ⟨-, le⟩ := k.free_le hs.covered.valid
  have more := Int.add_le_add_left le inventory
  exact ⟨hs.endowment, hs.covered.evolve k, hs.follows.trans k, hs.fresh, hs.available, hs.trader,
    fun t ht => (hs.queued t ht).mono more, fun t ht => (hs.agenda t ht).mono more,
    fun c hc => (hs.calling c hc).mono more⟩

/-- A decision looks at no more units than are free, so what it queues fits. -/
theorem Solvent.done {w : World σ} {investor : Investor} {task : Task} {tasks : List Task}
    {score : Nat} (hs : Solvent book credit inventory ⟨w, none, task :: tasks⟩)
    (h : w.investor.begin (w.isRetired env) w.now task = .ok (investor, .done score)) :
    Solvent book credit inventory ⟨{ w with investor }, none, tasks⟩ := by
  obtain ⟨other, change⟩ := Investor.begin_eq_done h
  have current : ¬ (⟨w, none, task :: tasks⟩ : Course σ).IsBehind := by
    simp [IsBehind, other]
  have fresh := hs.fresh current
  have rest : ∀ t ∈ tasks, t.Fits _ := fun t ht => hs.agenda t (List.mem_cons_of_mem _ ht)
  have unchanged : Solvent book credit inventory ⟨w, none, tasks⟩ :=
    ⟨hs.endowment, hs.covered, hs.follows, fun _ => fresh, hs.available, hs.trader, hs.queued, rest,
      hs.calling⟩
  obtain rfl | ⟨-, hd⟩ := change
  · exact unchanged
  · obtain rfl | ⟨view, d, trader, looks, decides, rfl⟩ := Investor.decide_eq_ok hd
    · exact unchanged
    · obtain ⟨sound, fits⟩ := RandomTrader.decide_fits hs.trader decides
      obtain ⟨-, -, seen⟩ := Investor.situation_eq_ok looks
      -- the view is that of the orders the ledger has, and those have only gained since
      obtain ⟨-, le⟩ := hs.follows.free_le (hs.follows.valid_iff.mpr hs.covered.valid)
      have endowed := hs.endowment.2
      have room : view.availableInventory ≤
          inventory + (Totals.exact (book w.exchange)).freeInventory := by
        simp only [fresh, Totals.freeInventory, Ledger.shown] at le ⊢
        simp only at endowed
        omega
      refine ⟨hs.endowment, hs.covered, hs.follows, fun _ => fresh, hs.available, sound, ?_, rest,
        hs.calling⟩
      intro t ht
      obtain ht | ht := List.mem_append.mp ht
      · exact hs.queued t ht
      · exact (fits.followUps t ht).mono room

/-- The composite of a tick takes over what is queued. -/
theorem Solvent.next {w : World σ} {investor : Investor} {c : Composite Task}
    (hs : Solvent book credit inventory ⟨w, none, []⟩)
    (h : w.investor.next (w.isRetired env) = (investor, .ok (some c))) :
    Solvent book credit inventory (opening w investor c.tasks) := by
  obtain ⟨-, rfl, hc⟩ := Investor.next_eq_ok h
  have current : ¬ (⟨w, none, []⟩ : Course σ).IsBehind := by simp [IsBehind]
  refine ⟨hs.endowment, hs.covered, hs.follows, fun _ => hs.fresh current, hs.available, hs.trader,
    by simp [opening], ?_, by simp [opening]⟩
  intro task ht
  simp only [opening, hc] at ht
  obtain rfl | ht := List.mem_cons.mp ht
  · trivial
  · obtain ht | ht := List.mem_append.mp ht
    · exact hs.queued task ht
    · obtain rfl := List.mem_singleton.mp ht
      trivial

/-- A call is made for a task of the composite. -/
theorem Solvent.ask {w : World σ} {c : Call} {tasks : List Task}
    (honest : env.exchange.IsHonest stirs book credit)
    (hs : Solvent book credit inventory ⟨w, none, c.task :: tasks⟩) :
    Solvent book credit inventory ⟨w.ask env c, some c, tasks⟩ := by
  have asked : Solvent book credit inventory ⟨w, some c, tasks⟩ := by
    refine ⟨hs.endowment, hs.covered, hs.follows, ?_, hs.available, hs.trader, hs.queued,
      fun t ht => hs.agenda t (List.mem_cons_of_mem _ ht), ?_⟩
    · intro current
      refine hs.fresh fun behind => current (.inl ?_)
      obtain behind | ⟨-, behind⟩ := behind
      · simp at behind
      · obtain ⟨update, -⟩ := List.cons.inj behind
        cases c with
        | getOrders => rfl
        | _ => simp [Call.task] at update
    · rintro c' ⟨rfl⟩
      exact hs.agenda c.task List.mem_cons_self
  exact asked.evolve (honest.note w.now c w.exchange)

theorem remaining_subset (tasks : List Task) (result : Except Failure Nat) :
    remaining tasks result ⊆ tasks := by
  cases result with
  | ok score => exact List.Subset.refl _
  | error failure => exact List.nil_subset _

/-- What a reply leaves is solvent if the orders on both sides are; the trader is not touched, and
what the reply queues places nothing. -/
theorem Solvent.settle {w : World σ} {c : Call} {tasks todo : List Task}
    (hs : Solvent book credit inventory ⟨w, some c, tasks⟩)
    (ho : Orderly (⟨w, some c, tasks⟩ : Course σ))
    (endowment : (w.settle env c).1.investor.ledger.initialCredit = credit ∧
      (w.settle env c).1.investor.ledger.initialInventory = inventory)
    (covered : Covered credit inventory (book (w.settle env c).1.exchange))
    (follows : Evolves (w.settle env c).1.investor.ledger.orders
      (book (w.settle env c).1.exchange))
    (fresh : ¬ (⟨(w.settle env c).1, none, todo⟩ : Course σ).IsBehind →
      Totals.exact (w.settle env c).1.investor.ledger.orders =
        (w.settle env c).1.investor.ledger.shown)
    (available : 0 ≤ credit + (w.settle env c).1.investor.ledger.shown.freeCredit ∧
      0 ≤ inventory + (w.settle env c).1.investor.ledger.shown.freeInventory)
    (agenda : ∀ task ∈ todo,
      task.Fits (inventory + (Totals.exact (book (w.settle env c).1.exchange)).freeInventory)) :
    Solvent book credit inventory ⟨(w.settle env c).1, none, todo⟩ := by
  refine ⟨endowment, covered, follows, fresh, available, ?_, ?_, agenda, by simp⟩
  · have untouched := Investor.trader_receive w.investor w.now (env.wallClock w.now) c
      (env.exchange.reply c w.exchange).1
    simp only [settle_eq, untouched]
    exact hs.trader
  · intro task ht
    obtain rfl := ho.updates_settle task ht
    trivial

/-- A reply without consequences for the orders. -/
theorem Solvent.settle_idle {w : World σ} {c : Call} {tasks : List Task}
    (honest : env.exchange.IsHonest stirs book credit)
    (hs : Solvent book credit inventory ⟨w, some c, tasks⟩)
    (ho : Orderly (⟨w, some c, tasks⟩ : Course σ)) (result : Except Failure Nat)
    (idle : Investor.operationOf (env.wallClock w.now) c
      (env.exchange.reply c w.exchange).1 = none) :
    Solvent book credit inventory ⟨(w.settle env c).1, none, remaining tasks result⟩ := by
  have kept : Evolves (book w.exchange) (book (env.exchange.reply c w.exchange).2) :=
    honest.keeps rfl idle
  have later := hs.evolve kept
  have ledger := Investor.ledger_receive w.investor w.now (env.wallClock w.now) c
    (env.exchange.reply c w.exchange).1
  rw [idle] at ledger
  have current : ¬ (⟨w, some c, tasks⟩ : Course σ).IsBehind := by
    rintro (asked | ⟨waiting, -⟩)
    · obtain rfl := Option.some.inj asked
      obtain ⟨orders, x, told, -⟩ := honest.tells w.exchange
      simp [told, Investor.operationOf] at idle
    · simp at waiting
  refine hs.settle ho ?_ later.covered ?_ ?_ ?_ ?_
  all_goals simp only [settle_eq, ledger]
  · exact hs.endowment
  · exact later.follows
  · exact fun _ => hs.fresh current
  · exact hs.available
  · exact fun task ht => later.agenda task (remaining_subset tasks result ht)

/-- An order has been accepted. -/
theorem Solvent.settle_placed {w : World σ} {side : Side} {amount price : Int} {tasks : List Task}
    {o : Order} {x : σ} (honest : env.exchange.IsHonest stirs book credit)
    (hs : Solvent book credit inventory ⟨w, some (.addOrder side amount price), tasks⟩)
    (ho : Orderly (⟨w, some (.addOrder side amount price), tasks⟩ : Course σ))
    (placed : env.exchange.reply (.addOrder side amount price) w.exchange = (.ok o, x)) :
    Solvent book credit inventory
      ⟨(w.settle env (.addOrder side amount price)).1, none, tasks⟩ := by
  obtain ⟨resting, rfl, rfl, rfl, before, k, k', fresh, paid⟩ := honest.accepts placed
  have rest : tasks = [.updateOrders, .decision] := ho.calling _ rfl rfl
  have earlier : Covered credit inventory before := hs.covered.evolve k
  have freeUnits := (k.free_le hs.covered.valid).2
  have fits := (hs.calling _ rfl).mono (Int.add_le_add_left freeUnits inventory)
  have both : 0 < o.amount ∧ (o.side = .buy → 0 < o.price) ∧
      (o.side = .sell → o.amount ≤ inventory + (Totals.exact before).freeInventory) := by
    simp only [Call.task] at fits
    cases hside : o.side <;> simp only [hside, Task.Fits] at fits <;> simp [fits]
  obtain ⟨positive, price, units⟩ := both
  have valid : o.Valid := ⟨Int.le_of_lt positive, fun buy => Int.le_of_lt (price buy)⟩
  have covered := (earlier.place resting valid fresh paid units).evolve k'
  refine hs.settle ho ?_ ?_ ?_ ?_ ?_ ?_
  all_goals simp only [settle_eq, placed, Investor.receive]
  · exact hs.endowment
  · exact covered
  · exact ((hs.follows.trans k).append (.refl o)).trans k'
  · intro current
    exact absurd (.inr ⟨rfl, rest⟩) current
  · exact hs.available
  · simp [rest, Task.Fits]

/-- An order has been closed. -/
theorem Solvent.settle_closed {w : World σ} {id : Int} {tasks : List Task} {u : Unit} {x : σ}
    (honest : env.exchange.IsHonest stirs book credit)
    (hs : Solvent book credit inventory ⟨w, some (.deleteOrder id), tasks⟩)
    (ho : Orderly (⟨w, some (.deleteOrder id), tasks⟩ : Course σ))
    (closed : env.exchange.reply (.deleteOrder id) w.exchange = (.ok u, x)) :
    Solvent book credit inventory ⟨(w.settle env (.deleteOrder id)).1, none, tasks⟩ := by
  obtain ⟨before, o, at_, k, found, resting, k'⟩ := honest.closes closed
  have rest : tasks = [.updateOrders, .decision] := ho.calling _ rfl rfl
  have earlier : Covered credit inventory before := hs.covered.evolve k
  have covered := (earlier.close at_ found resting).evolve k'
  have follows := Ledger.evolves_closeFirst (env.wallClock w.now) at_ (hs.follows.trans k) found
    resting
  refine hs.settle ho ?_ ?_ ?_ ?_ ?_ ?_
  all_goals simp only [settle_eq, closed, Investor.receive]
  · exact hs.endowment
  · exact covered
  · exact follows.trans k'
  · intro current
    exact absurd (.inr ⟨rfl, rest⟩) current
  · exact hs.available
  · simp [rest, Task.Fits]

/-- The orders have been told: the reconciliation succeeds, and the ledger is up to date. -/
theorem Solvent.settle_told {w u : World σ} {tasks : List Task} {result : Except Failure Nat}
    (honest : env.exchange.IsHonest stirs book credit)
    (hs : Solvent book credit inventory ⟨w, some .getOrders, tasks⟩)
    (ho : Orderly (⟨w, some .getOrders, tasks⟩ : Course σ))
    (h : w.settle env .getOrders = (u, .ok result)) :
    (∃ score, result = .ok score) ∧
      Solvent book credit inventory ⟨u, none, remaining tasks result⟩ := by
  obtain ⟨orders, x, told, k, k'⟩ := honest.tells w.exchange
  have present : Covered credit inventory orders := hs.covered.evolve k
  obtain rfl : (w.settle env .getOrders).1 = u := congrArg Prod.fst h
  have outcome : (w.settle env .getOrders).2 = .ok result := congrArg Prod.snd h
  simp only [settle_eq, told, Investor.receive] at outcome
  cases hr : (w.investor.ledger.reconcile orders (env.wallClock w.now)).2 with
  | error fault => simp [hr, Except.map] at outcome
  | ok reconciled =>
    have paid := present.credit
    have delivered := present.inventory
    rw [← hs.endowment.1] at paid
    rw [← hs.endowment.2] at delivered
    obtain ⟨report, merged, rfl, taken, evolves, totals⟩ :=
      Ledger.reconcile_of_evolves (hs.follows.trans k) present.nodup paid delivered hr
    simp only [hr, Except.map, Except.ok.injEq] at outcome
    refine ⟨⟨_, outcome.symm⟩, ?_⟩
    have freeUnits := (k.trans k').free_le hs.covered.valid
    refine hs.settle ho ?_ ?_ ?_ ?_ ?_ ?_
    all_goals simp only [settle_eq, told, Investor.receive, taken, Ledger.shown_exactOver]
    · exact hs.endowment
    · exact present.evolve k'
    · exact evolves.trans k'
    · exact fun _ => rfl
    · rw [totals]
      exact ⟨present.credit, present.inventory⟩
    · intro task ht
      exact (hs.agenda task (remaining_subset tasks result ht)).mono
        (Int.add_le_add_left freeUnits.2 inventory)

/-- A reply leaves an investor solvent, and if it tells the orders, the task succeeds. -/
theorem Solvent.answer {w u : World σ} {c : Call} {tasks : List Task} {result : Except Failure Nat}
    (honest : env.exchange.IsHonest stirs book credit)
    (hs : Solvent book credit inventory ⟨w, some c, tasks⟩)
    (ho : Orderly (⟨w, some c, tasks⟩ : Course σ)) (h : w.settle env c = (u, .ok result)) :
    Solvent book credit inventory ⟨u, none, remaining tasks result⟩ ∧
      (c = .getOrders → ∃ score, result = .ok score) := by
  obtain rfl : (w.settle env c).1 = u := congrArg Prod.fst h
  have outcome : (w.settle env c).2 = .ok result := congrArg Prod.snd h
  cases c with
  | getOrders =>
    obtain ⟨succeeds, solvent⟩ := hs.settle_told honest ho h
    exact ⟨solvent, fun _ => succeeds⟩
  | addOrder side amount price =>
    refine ⟨?_, by simp⟩
    cases placed : env.exchange.reply (.addOrder side amount price) w.exchange with
    | mk r x =>
      cases r with
      | error failure =>
        exact hs.settle_idle honest ho result (by simp [placed, Investor.operationOf])
      | ok o =>
        simp only [settle_eq, placed, Investor.receive, Except.ok.injEq] at outcome
        obtain rfl := outcome
        exact hs.settle_placed honest ho placed
  | deleteOrder id =>
    refine ⟨?_, by simp⟩
    cases closed : env.exchange.reply (.deleteOrder id) w.exchange with
    | mk r x =>
      cases r with
      | error failure =>
        exact hs.settle_idle honest ho result (by simp [closed, Investor.operationOf])
      | ok u =>
        simp only [settle_eq, closed, Investor.receive, Except.ok.injEq] at outcome
        obtain rfl := outcome
        exact hs.settle_closed honest ho closed
  | _ => exact ⟨hs.settle_idle honest ho result rfl, by simp⟩

theorem solvent_step {s t : Course σ} {event : Option Event}
    (honest : env.exchange.IsHonest stirs book credit) (h : Step env stirs s event t)
    (ho : s.Orderly) (hs : s.Solvent book credit inventory) : t.Solvent book credit inventory := by
  cases h with
  | wait now drawn h =>
    exact ⟨hs.endowment, hs.covered, hs.follows, hs.fresh, hs.available, hs.trader, hs.queued,
      hs.agenda, hs.calling⟩
  | stir exchange h => exact hs.evolve (honest.stirs h)
  | next h => exact hs.next h
  | done h => exact hs.done h
  | ask h =>
    obtain ⟨rfl, rfl⟩ := Investor.begin_eq_ask h
    exact hs.ask honest
  | answer h => exact (hs.answer honest ho h).1

section NewInvestor

variable {account : String} {profile : InvestorProfile} {rewards : Rewards} {timing : Timing}
  {source : Random.Stream} {w : World σ}
  (hn : Investor.new account profile rewards timing source = .ok w.investor)
  (hc : 0 ≤ profile.credit) (hi : 0 ≤ profile.inventory)
  (ha : 0 < profile.unitAmount) (hp : 0 < profile.unitPrice) (empty : book w.exchange = [])

include hn hc hi ha hp empty

/-- A new investor without orders is solvent once it has started. -/
theorem solvent_of_start {investor : Investor} {c : Composite Task}
    (hs : w.investor.start = (investor, .ok c)) :
    Solvent book profile.credit profile.inventory (opening w investor c.tasks) := by
  obtain ⟨ledger, pending, trader⟩ := Investor.new_eq_ok hn
  obtain ⟨-, rfl, tasks⟩ := Investor.start_eq_ok hs
  refine ⟨?_, ?_, ?_, ?_, ?_, ?_, ?_, ?_, ?_⟩
  all_goals simp only [opening, ledger, pending, trader, empty, tasks, Ledger.new]
  · simp
  · refine ⟨by simp, by simp, ?_, ?_⟩
    · simpa [Totals.exact, Totals.freeCredit] using hc
    · simpa [Totals.exact, Totals.freeInventory] using hi
  · exact .refl []
  · exact fun _ => Ledger.exact_orders_new profile.credit profile.inventory
  · simpa [Ledger.shown, Totals.freeCredit, Totals.freeInventory] using ⟨hc, hi⟩
  · exact ⟨ha, hp⟩
  · simp
  · simp [Investor.startTasks, Task.Fits]
  · simp

theorem solvent_of_runs {s : Course σ} {history : List Event}
    (honest : env.exchange.IsHonest stirs book profile.credit)
    (run : Runs env stirs w history s) : s.Solvent book profile.credit profile.inventory := by
  obtain ⟨-, pending, -⟩ := Investor.new_eq_ok hn
  obtain ⟨investor, c, hs, steps⟩ := run
  induction steps with
  | refl => exact solvent_of_start hn hc hi ha hp empty hs
  | step before last ih =>
    have orderly := orderly_of_runs ⟨investor, c, hs, before⟩ pending
    exact solvent_step honest last orderly ih

/-- Whenever the orders are told, the task that has asked for them succeeds. -/
theorem fetches_succeed {s : Course σ} {history : List Event}
    (honest : env.exchange.IsHonest stirs book profile.credit) (run : Runs env stirs w history s)
    {at_ : Timestamp} {r : Call.getOrders.Reply} {result : Except Failure Nat}
    {dropped : List Task} (mem : .answered at_ .getOrders r result dropped ∈ history) :
    ∃ score, result = .ok score := by
  obtain ⟨-, pending, -⟩ := Investor.new_eq_ok hn
  obtain ⟨investor, c, hs, steps⟩ := run
  induction steps with
  | refl => simp at mem
  | @step history event t u before last ih =>
    obtain shown | earlier := List.mem_append.mp mem
    · have run : Runs env stirs w history t := ⟨investor, c, hs, before⟩
      have orderly := orderly_of_runs run pending
      have solvent := solvent_of_runs hn hc hi ha hp empty honest run
      cases last with
      | answer h =>
        simp only [Option.toList_some, List.mem_singleton, Event.answered.injEq] at shown
        obtain ⟨-, rfl, -, rfl, -⟩ := shown
        exact (solvent.answer honest orderly h).2 rfl
      | _ => simp at shown
    · exact ih earlier

end NewInvestor

/-- With an honest exchange an investor brings no desync upon itself: no reconciliation of a run
fails, and the funds that the ledger shows as free are never below zero. -/
theorem reconciliations_succeed {account : String} {profile : InvestorProfile} {rewards : Rewards}
    {timing : Timing} {source : Random.Stream} {w : World σ} {s : Course σ} {history : List Event}
    (hn : Investor.new account profile rewards timing source = .ok w.investor)
    (hc : 0 ≤ profile.credit) (hi : 0 ≤ profile.inventory)
    (ha : 0 < profile.unitAmount) (hp : 0 < profile.unitPrice)
    (honest : env.exchange.IsHonest stirs book profile.credit) (empty : book w.exchange = [])
    (run : Runs env stirs w history s) :
    (∀ at_ r result dropped, .answered at_ .getOrders r result dropped ∈ history →
      ∃ score, result = .ok score) ∧
    s.world.investor.ledger.reservedCredit ≤ s.world.investor.ledger.credit ∧
    s.world.investor.ledger.reservedInventory ≤ s.world.investor.ledger.inventory := by
  have solvent := solvent_of_runs hn hc hi ha hp empty honest run
  obtain ⟨freeCredit, freeInventory⟩ := solvent.available
  obtain ⟨initialCredit, initialInventory⟩ := solvent.endowment
  simp only [Ledger.shown, Totals.freeCredit, Totals.freeInventory] at freeCredit freeInventory
  refine ⟨?_, by omega, by omega⟩
  intro at_ r result dropped mem
  exact fetches_succeed hn hc hi ha hp empty honest run mem

/-- A fair exchange at which it is always the same time. -/
def fairEnvironment (credit : Int) : Environment (List Order) where
  exchange := .fair credit
  wallClock _ := .epoch
  delays _ := 0

/-- An investor places an order for all the money it has, and has reconciled it. -/
theorem reconciliations_succeed_after_bid :
    ∃ inv history s,
      Investor.new "investor" ⟨500, 0, 5, 100, 1⟩ .standard .standard (.ofSeed 0) = .ok inv ∧
      Runs (fairEnvironment 500) Evolves (.new inv []) history s ∧
      s.world.investor.ledger.reservedCredit = 500 ∧
      (∀ at_ r result dropped, .answered at_ .getOrders r result dropped ∈ history →
        ∃ score, result = .ok score) ∧
      500 ≤ s.world.investor.ledger.credit := by
  have rehearsal : (rehearse (fairEnvironment 500) ⟨500, 0, 5, 100, 1⟩ .standard [] 17).any
      fun r => decide (r.2.world.investor.ledger.reservedCredit = 500) := by decide
  obtain ⟨inv, history, s, hi, run, found⟩ := exists_run_of_rehearse Evolves rehearsal
  have tiedUp : s.world.investor.ledger.reservedCredit = 500 := of_decide_eq_true found
  obtain ⟨succeed, reserved, -⟩ := reconciliations_succeed hi (by decide) (by decide) (by decide)
    (by decide) (fair_isHonest 500) rfl run
  exact ⟨inv, history, s, hi, run, tiedUp, succeed, tiedUp ▸ reserved⟩

end Course

end TradingLoad
