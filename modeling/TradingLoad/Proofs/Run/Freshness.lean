import TradingLoad.Proofs.Run.Course

namespace TradingLoad.Course

variable {σ : Type} {env : Environment σ} {stirs : σ → σ → Prop}

/-- What the orders of a run come to beyond what its ledger shows. -/
def lag (profile : InvestorProfile) (history : List Event) : Totals :=
  (Ledger.new profile.credit profile.inventory).lag (history.filterMap Event.operation)

/-- The funds that look free are those that the orders leave free, less the lag. -/
theorem situation_of_lag {account : String} {profile : InvestorProfile} {rewards : Rewards}
    {timing : Timing} {source : Random.Stream} {w : World σ} {s : Course σ} {history : List Event}
    {view : Situation} (new : Investor.new account profile rewards timing source = .ok w.investor)
    (run : Runs env stirs w history s) (looks : s.world.investor.situation = .ok view) :
    view.availableCredit + (lag profile history).freeCredit =
      profile.credit + (Totals.exact s.world.investor.ledger.orders).freeCredit ∧
    view.availableInventory + (lag profile history).freeInventory =
      profile.inventory + (Totals.exact s.world.investor.ledger.orders).freeInventory := by
  have fromNew := ledger_runs run
  rw [(Investor.new_eq_ok new).1] at fromNew
  let start := Ledger.new profile.credit profile.inventory
  have lags := Ledger.exact_orders_after
    (Ledger.exact_orders_new profile.credit profile.inventory) (history.filterMap Event.operation)
  obtain ⟨hic, hii⟩ := Ledger.initial_after start (history.filterMap Event.operation)
  rw [← fromNew] at lags hic hii
  simp only [start, Ledger.new] at hic hii
  obtain ⟨-, hc, hi⟩ := Investor.situation_eq_ok looks
  rw [lags, Totals.freeCredit_add, Totals.freeInventory_add]
  simp only [Totals.freeCredit, Totals.freeInventory, Ledger.shown, lag]
  constructor <;> omega

/-- A decision sees the funds that the orders leave free, if and only if what was placed and closed
since the last reconciliation that went through leaves as much free as there was. -/
theorem funds_fresh_iff {account : String} {profile : InvestorProfile} {rewards : Rewards}
    {timing : Timing} {source : Random.Stream} {w : World σ} {s : Course σ} {history : List Event}
    {view : Situation} (new : Investor.new account profile rewards timing source = .ok w.investor)
    (run : Runs env stirs w history s) (looks : s.world.investor.situation = .ok view) :
    (view.availableCredit = profile.credit + sumSettled .sell Order.tradedValue view.orders -
        sumSettled .buy Order.tradedValue view.orders - sumOpen .buy Order.limitValue view.orders ∧
      view.availableInventory = profile.inventory -
        sumSettled .sell Order.tradedAmount view.orders +
        sumSettled .buy Order.tradedAmount view.orders - sumOpen .sell Order.amount view.orders) ↔
    (lag profile history).freeCredit = 0 ∧ (lag profile history).freeInventory = 0 := by
  obtain ⟨hc, hi⟩ := situation_of_lag new run looks
  obtain ⟨seen, -, -⟩ := Investor.situation_eq_ok looks
  rw [← seen] at hc hi
  simp only [Totals.freeCredit, Totals.freeInventory, Totals.exact] at hc hi ⊢
  constructor
  · rintro ⟨freshCredit, freshInventory⟩
    omega
  · rintro ⟨lagCredit, lagInventory⟩
    omega

/-- One look at the book every minute, and orders without any pause. -/
def promptOrders : Timing :=
  { Timing.standard with
    pollingIntervalMs := 60000, orderUpdateIntervalMs := 0, signupJitterMs := 0 }

/-- An exchange that fails at the second fetch of the orders. -/
def failsAfterPlacement : ScriptedExchange :=
  ScriptedExchange.initial.change
    (.canned .getOrders [.ok [], .error (.status 500 "internal error")])

/-- What the first decision sees: no orders, and all the money. -/
def firstView : Situation := ⟨[], 500, 0, 0, 0, 0, 5⟩

/-- The first decision sees what is free. -/
theorem funds_fresh_at_first_decision :
    ∃ inv history s,
      Investor.new "investor" ⟨500, 0, 5, 100, 1⟩ .standard promptOrders (.ofSeed 0) = .ok inv ∧
      Runs scripted (fun _ _ => False) (.new inv failsAfterPlacement) history s ∧
      s.agenda = [.decision] ∧ s.world.investor.situation = .ok firstView ∧
      firstView.availableCredit = 500 + 0 - 0 - 0 := by
  have rehearsal : (rehearse scripted ⟨500, 0, 5, 100, 1⟩ promptOrders failsAfterPlacement 10).any
      fun r => decide (r.2.agenda = [.decision]) &&
        decide (r.2.world.investor.situation = .ok firstView) &&
        decide ((lag ⟨500, 0, 5, 100, 1⟩ r.1).freeCredit = 0) &&
        decide ((lag ⟨500, 0, 5, 100, 1⟩ r.1).freeInventory = 0) := by decide
  obtain ⟨inv, history, s, hi, run, found⟩ := exists_run_of_rehearse (fun _ _ => False) rehearsal
  simp only [Bool.and_eq_true, decide_eq_true_eq] at found
  obtain ⟨⟨⟨decides, looks⟩, lagCredit⟩, lagInventory⟩ := found
  obtain ⟨fresh, -⟩ := (funds_fresh_iff hi run looks).mpr ⟨lagCredit, lagInventory⟩
  exact ⟨inv, history, s, hi, run, decides, looks, fresh⟩

/-- What the second decision sees: its own order, and all the money again. -/
def secondView : Situation :=
  ⟨[.placed 1 .buy 5 100 ScriptedExchange.openingTime], 500, 0, 0, 0, 0, 5⟩

/-- The fetch after the order fails, and the next decision sees money that the order has tied up. -/
theorem funds_stale_after_failed_fetch :
    ∃ inv history s,
      Investor.new "investor" ⟨500, 0, 5, 100, 1⟩ .standard promptOrders (.ofSeed 0) = .ok inv ∧
      Runs scripted (fun _ _ => False) (.new inv failsAfterPlacement) history s ∧
      s.calling = none ∧ s.agenda = [.decision] ∧ s.world.isRetired scripted = false ∧
      s.world.investor.isPlacementDue s.world.now ∧
      s.world.investor.situation = .ok secondView ∧
      secondView.availableCredit ≠ 500 + sumSettled .sell Order.tradedValue secondView.orders -
        sumSettled .buy Order.tradedValue secondView.orders -
        sumOpen .buy Order.limitValue secondView.orders := by
  have rehearsal : (rehearse scripted ⟨500, 0, 5, 100, 1⟩ promptOrders failsAfterPlacement 19).any
      fun r => r.2.calling.isNone && decide (r.2.agenda = [.decision]) &&
        decide (r.2.world.isRetired scripted = false) &&
        r.2.world.investor.isPlacementDue r.2.world.now &&
        decide (r.2.world.investor.situation = .ok secondView) := by decide
  obtain ⟨inv, history, s, hi, run, found⟩ := exists_run_of_rehearse (fun _ _ => False) rehearsal
  simp only [Bool.and_eq_true, decide_eq_true_eq, Option.isNone_iff_eq_none] at found
  obtain ⟨⟨⟨⟨idle, decides⟩, active⟩, due⟩, looks⟩ := found
  exact ⟨inv, history, s, hi, run, idle, decides, active, due, looks, by decide⟩

end TradingLoad.Course
