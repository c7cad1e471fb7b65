import TradingLoad.Proofs.Ledger.Sums

namespace TradingLoad

namespace Ledger

/-- What is done to a ledger. -/
inductive Operation where
  | place (o : Order)
  | close (id : Int) (at_ : Timestamp)
  | reconcile (remote : List Order) (now : Timestamp)
  deriving DecidableEq

/-- An operation, whatever comes of it. -/
def perform (l : Ledger) : Operation → Ledger
  | .place o => l.recordPlaced o
  | .close id at_ => l.markClosed id at_
  | .reconcile remote now => (l.reconcile remote now).1

/-- The ledger after a history, the latest operation first. -/
def after (l : Ledger) : List Operation → Ledger
  | [] => l
  | op :: ops => (l.after ops).perform op

theorem after_append (l : Ledger) (later earlier : List Operation) :
    l.after (later ++ earlier) = (l.after earlier).after later := by
  induction later with
  | nil => rfl
  | cons op later ih => simp only [List.cons_append, after, ih]

/-- The sums that the balances and the reservations of a ledger show. -/
def shown (l : Ledger) : Totals where
  tradedCredit := l.credit - l.initialCredit
  tradedInventory := l.inventory - l.initialInventory
  reservedCredit := l.reservedCredit
  reservedInventory := l.reservedInventory

/-- What the orders come to beyond what the ledger shows: the orders placed and closed since the
last reconciliation that took over the exchange's list. -/
def lag (l : Ledger) : List Operation → Totals
  | [] => .zero
  | .place o :: ops => l.lag ops + .exact [o]
  | .close id at_ :: ops =>
    match (l.after ops).find? id with
    | none => l.lag ops
    | some o => l.lag ops + (.exact [{ o with closedAt := some at_ }] - .exact [o])
  | .reconcile remote now :: ops => if (l.after ops).commits remote now then .zero else l.lag ops

theorem exact_orders_new (credit inventory : Int) :
    .exact (new credit inventory).orders = (new credit inventory).shown := by
  ext <;> simp [Totals.exact, shown, new]

theorem shown_exactOver (l : Ledger) (orders : List Order) :
    (l.exactOver orders).shown = .exact orders := by
  ext <;> simp only [shown, exactOver] <;> omega

/-- Closing an order replaces its share in the totals. -/
theorem exact_closeFirst (id : Int) (at_ : Timestamp) (orders : List Order) :
    Totals.exact (closeFirst id at_ orders) =
      match orders.find? (·.id = id) with
      | none => .exact orders
      | some o => .exact orders + (.exact [{ o with closedAt := some at_ }] - .exact [o]) := by
  induction orders with
  | nil => rfl
  | cons o os ih =>
    by_cases h : o.id = id
    · rw [closeFirst, if_pos h, Totals.exact_cons, Totals.exact_cons o os]
      simp only [List.find?_cons, h, decide_true]
      ext <;> simp only [Totals.tradedCredit_add, Totals.tradedInventory_add,
        Totals.reservedCredit_add, Totals.reservedInventory_add, Totals.tradedCredit_sub,
        Totals.tradedInventory_sub, Totals.reservedCredit_sub, Totals.reservedInventory_sub] <;>
        omega
    · rw [closeFirst, if_neg h, Totals.exact_cons, ih, Totals.exact_cons o os]
      simp only [List.find?_cons, h, decide_false]
      cases os.find? (·.id = id) with
      | none => rfl
      | some c =>
        ext <;> simp only [Totals.tradedCredit_add, Totals.tradedInventory_add,
          Totals.reservedCredit_add, Totals.reservedInventory_add] <;> omega

/-- The orders come to what the ledger shows and the lag. -/
theorem exact_orders_after {l : Ledger} (h : .exact l.orders = l.shown) (ops : List Operation) :
    Totals.exact (l.after ops).orders = (l.after ops).shown + l.lag ops := by
  induction ops with
  | nil =>
    rw [after, lag, h]
    ext <;> simp [Totals.zero]
  | cons op ops ih =>
    cases op with
    | place o =>
      change Totals.exact ((l.after ops).orders ++ [o]) = (l.after ops).shown + _
      rw [Totals.exact_append, ih, lag]
      ext <;> simp only [Totals.tradedCredit_add, Totals.tradedInventory_add,
        Totals.reservedCredit_add, Totals.reservedInventory_add] <;> omega
    | close id at_ =>
      change Totals.exact (closeFirst id at_ (l.after ops).orders) = (l.after ops).shown + _
      rw [exact_closeFirst, ih, lag, find?]
      cases (l.after ops).orders.find? (·.id = id) with
      | none => rfl
      | some o =>
        ext <;> simp only [Totals.tradedCredit_add, Totals.tradedInventory_add,
          Totals.reservedCredit_add, Totals.reservedInventory_add] <;> omega
    | reconcile remote now =>
      cases hc : (l.after ops).commits remote now with
      | false =>
        have kept := (reconcile_of_not_commits hc).1
        simp only [after, perform, lag, hc, Bool.false_eq_true, if_false, kept]
        exact ih
      | true =>
        obtain ⟨merged, -, taken, -⟩ := reconcile_of_commits hc
        simp only [after, perform, lag, hc, if_true, taken, shown_exactOver]
        ext <;> simp [exactOver, Totals.zero]

theorem initial_after (l : Ledger) (ops : List Operation) :
    (l.after ops).initialCredit = l.initialCredit ∧
      (l.after ops).initialInventory = l.initialInventory := by
  induction ops with
  | nil => exact ⟨rfl, rfl⟩
  | cons op ops ih =>
    cases op with
    | place o => exact ih
    | close id at_ => exact ih
    | reconcile remote now =>
      obtain kept | ⟨merged, -, taken⟩ := ledger_of_reconcile (l.after ops) remote now
      · simp only [after, perform, kept]
        exact ih
      · simp only [after, perform, taken]
        exact ih

/-- Closing an order moves no money and no units. -/
theorem exact_closed_sub (o : Order) (at_ : Timestamp) :
    (Totals.exact [{ o with closedAt := some at_ }] - .exact [o]).tradedCredit = 0 ∧
      (Totals.exact [{ o with closedAt := some at_ }] - .exact [o]).tradedInventory = 0 := by
  constructor <;> exact Int.sub_self _

/-- Orders that have not traded when they are placed leave the balances without a lag. -/
theorem lag_traded {l : Ledger} {ops : List Operation}
    (untraded : ∀ o, .place o ∈ ops → o.trade = none) :
    (l.lag ops).tradedCredit = 0 ∧ (l.lag ops).tradedInventory = 0 := by
  induction ops with
  | nil => exact ⟨rfl, rfl⟩
  | cons op ops ih =>
    obtain ⟨hc, hi⟩ := ih fun o ho => untraded o (List.mem_cons_of_mem _ ho)
    cases op with
    | place o =>
      have ht := untraded o List.mem_cons_self
      simp [lag, hc, hi, Totals.exact, sumSettled_of_no_trade ht]
    | close id at_ =>
      simp only [lag]
      split
      · exact ⟨hc, hi⟩
      · next o _ =>
        have hz := exact_closed_sub o at_
        rw [Totals.tradedCredit_add, Totals.tradedInventory_add]
        omega
    | reconcile remote now =>
      simp only [lag]
      split
      · exact ⟨rfl, rfl⟩
      · exact ⟨hc, hi⟩

/-- While no order is placed that has traded already, the balances are the endowment and the settled
orders, whatever has happened in between, and a reconciliation that takes over the exchange's list
reserves what the open orders tie up. -/
theorem balances_follow_settled_orders {credit inventory : Int} {ops : List Operation}
    (untraded : ∀ o, .place o ∈ ops → o.trade = none) :
    let l := (new credit inventory).after ops
    l.credit = credit + sumSettled .sell Order.tradedValue l.orders -
      sumSettled .buy Order.tradedValue l.orders ∧
    l.inventory = inventory - sumSettled .sell Order.tradedAmount l.orders +
      sumSettled .buy Order.tradedAmount l.orders ∧
    ∀ remote now, TookOver (l.reconcile remote now).2 →
      let l' := (l.reconcile remote now).1
      l'.reservedCredit = sumOpen .buy Order.limitValue l'.orders ∧
      l'.reservedInventory = sumOpen .sell Order.amount l'.orders := by
  intro l
  have settled : Totals.exact l.orders = l.shown + (new credit inventory).lag ops :=
    exact_orders_after (exact_orders_new credit inventory) ops
  obtain ⟨hc, hi⟩ := lag_traded (l := new credit inventory) untraded
  obtain ⟨initialCredit, initialInventory⟩ :
      l.initialCredit = credit ∧ l.initialInventory = inventory := initial_after _ ops
  have hcredit := congrArg Totals.tradedCredit settled
  have hinventory := congrArg Totals.tradedInventory settled
  simp only [Totals.exact, shown, Totals.tradedCredit_add, Totals.tradedInventory_add, hc, hi]
    at hcredit hinventory
  refine ⟨by omega, by omega, ?_⟩
  intro remote now took
  obtain ⟨merged, -, taken, -⟩ := reconcile_of_commits (commits_of_tookOver took)
  simp only [taken]
  exact ⟨rfl, rfl⟩

/-- An investor sells 4 of 10 units at 125 and bids for another at 100. -/
theorem balances_after_sale_and_bid :
    let sell := Order.placed 1 .sell 4 120 .epoch
    let sold := { sell with trade := some ⟨10, 4, 125, .epoch⟩, closedAt := some .epoch }
    let buy := Order.placed 2 .buy 1 100 .epoch
    let ops : List Operation := [.place buy, .reconcile [sold] .epoch, .place sell]
    let l := (new 1000 10).after ops
    l.credit = 1000 + 4 * 125 - 0 ∧ l.inventory = 10 - 4 + 0 ∧
      (l.reconcile [sold, buy] .epoch).1.reservedCredit = 100 := by
  intro sell sold buy ops l
  have untraded : ∀ o, .place o ∈ ops → o.trade = none := by
    simp [ops, buy, sell, Order.placed]
  obtain ⟨hc, hi, hr⟩ := @balances_follow_settled_orders 1000 10 ops untraded
  exact ⟨hc.trans (by decide), hi.trans (by decide),
    (hr [sold, buy] .epoch (.inl ⟨_, rfl⟩)).1.trans (by decide)⟩

end Ledger

end TradingLoad
