import TradingLoad.Ledger
import Mathlib.Algebra.Order.Ring.Int
import Mathlib.Data.List.Induction

namespace TradingLoad

namespace Checked

theorem bind_eq_ok_iff {α β : Type} {x : Checked α} {f : α → Checked β} {b : β} :
    (x >>= f) = .ok b ↔ ∃ a, x = .ok a ∧ f a = .ok b := by
  cases x with
  | error fault => simp [bind, Except.bind]
  | ok a => simp [bind, Except.bind]

end Checked

/-- What is found by looking at a result, a result has. -/
theorem exists_ok_of_any {ε α : Type} {x : Except ε α} {p : α → Bool} (h : x.toOption.any p) :
    ∃ a, x = .ok a ∧ p a := by
  cases x with
  | error failure => cases h
  | ok a => exact ⟨a, rfl, h⟩

/-- Sum over the settled orders of a side. -/
def sumSettled (side : Side) (f : Order → Trade → Int) (orders : List Order) : Int :=
  (orders.filterMap fun o => if o.side = side then o.trade.map (f o) else none).sum

/-- Sum over the open orders of a side. -/
def sumOpen (side : Side) (f : Order → Int) (orders : List Order) : Int :=
  ((orders.filter fun o => o.isOpen && o.side = side).map f).sum

namespace Order

/-- The amount at the limit. -/
def limitValue (o : Order) : Int := o.amount * o.price

/-- The amount at the price of a trade. -/
def tradedValue (o : Order) (t : Trade) : Int := o.amount * t.price

/-- The amount itself, whatever the trade. -/
def tradedAmount (o : Order) (_ : Trade) : Int := o.amount

end Order

section Sums

variable {side : Side} {f : Order → Trade → Int} {g : Order → Int} {orders : List Order}

@[simp] theorem sumSettled_nil : sumSettled side f [] = 0 := rfl

@[simp] theorem sumOpen_nil : sumOpen side g [] = 0 := rfl

theorem sumSettled_append (xs ys : List Order) :
    sumSettled side f (xs ++ ys) = sumSettled side f xs + sumSettled side f ys := by
  simp [sumSettled]

theorem sumOpen_append (xs ys : List Order) :
    sumOpen side g (xs ++ ys) = sumOpen side g xs + sumOpen side g ys := by
  simp [sumOpen]

theorem sumSettled_of_trade {o : Order} {t : Trade} (h : o.trade = some t) :
    sumSettled side f [o] = if o.side = side then f o t else 0 := by
  by_cases hs : o.side = side <;> simp [sumSettled, h, hs]

theorem sumSettled_of_no_trade {o : Order} (h : o.trade = none) : sumSettled side f [o] = 0 := by
  simp [sumSettled, h]

theorem sumOpen_of_isOpen {o : Order} (h : o.isOpen) :
    sumOpen side g [o] = if o.side = side then g o else 0 := by
  by_cases hs : o.side = side <;> simp [sumOpen, h, hs]

theorem sumOpen_of_isRemoved {o : Order} (h : o.isRemoved) : sumOpen side g [o] = 0 := by
  simp [sumOpen, Order.isOpen, h]

end Sums

namespace Totals

/-- The totals of a list of orders in unbounded numbers. -/
def exact (orders : List Order) : Totals where
  tradedCredit :=
    sumSettled .sell Order.tradedValue orders - sumSettled .buy Order.tradedValue orders
  tradedInventory :=
    sumSettled .buy Order.tradedAmount orders - sumSettled .sell Order.tradedAmount orders
  reservedCredit := sumOpen .buy Order.limitValue orders
  reservedInventory := sumOpen .sell Order.amount orders

instance : Add Totals where
  add t u := ⟨t.tradedCredit + u.tradedCredit, t.tradedInventory + u.tradedInventory,
    t.reservedCredit + u.reservedCredit, t.reservedInventory + u.reservedInventory⟩

instance : Sub Totals where
  sub t u := ⟨t.tradedCredit - u.tradedCredit, t.tradedInventory - u.tradedInventory,
    t.reservedCredit - u.reservedCredit, t.reservedInventory - u.reservedInventory⟩

attribute [ext] Totals

section Components

variable (t u : Totals)

@[simp] theorem tradedCredit_add : (t + u).tradedCredit = t.tradedCredit + u.tradedCredit := rfl
@[simp] theorem tradedInventory_add :
    (t + u).tradedInventory = t.tradedInventory + u.tradedInventory := rfl
@[simp] theorem reservedCredit_add :
    (t + u).reservedCredit = t.reservedCredit + u.reservedCredit := rfl
@[simp] theorem reservedInventory_add :
    (t + u).reservedInventory = t.reservedInventory + u.reservedInventory := rfl
@[simp] theorem tradedCredit_sub : (t - u).tradedCredit = t.tradedCredit - u.tradedCredit := rfl
@[simp] theorem tradedInventory_sub :
    (t - u).tradedInventory = t.tradedInventory - u.tradedInventory := rfl
@[simp] theorem reservedCredit_sub :
    (t - u).reservedCredit = t.reservedCredit - u.reservedCredit := rfl
@[simp] theorem reservedInventory_sub :
    (t - u).reservedInventory = t.reservedInventory - u.reservedInventory := rfl

end Components

/-- The money that the totals leave free, beyond the endowment. -/
def freeCredit (t : Totals) : Int := t.tradedCredit - t.reservedCredit

/-- The units that the totals leave free, beyond the endowment. -/
def freeInventory (t : Totals) : Int := t.tradedInventory - t.reservedInventory

theorem freeCredit_add (t u : Totals) : (t + u).freeCredit = t.freeCredit + u.freeCredit := by
  simp only [freeCredit, tradedCredit_add, reservedCredit_add]
  omega

theorem freeInventory_add (t u : Totals) :
    (t + u).freeInventory = t.freeInventory + u.freeInventory := by
  simp only [freeInventory, tradedInventory_add, reservedInventory_add]
  omega

theorem freeCredit_sub (t u : Totals) : (t - u).freeCredit = t.freeCredit - u.freeCredit := by
  simp only [freeCredit, tradedCredit_sub, reservedCredit_sub]
  omega

theorem freeInventory_sub (t u : Totals) :
    (t - u).freeInventory = t.freeInventory - u.freeInventory := by
  simp only [freeInventory, tradedInventory_sub, reservedInventory_sub]
  omega

theorem exact_append (xs ys : List Order) : exact (xs ++ ys) = exact xs + exact ys := by
  ext <;> simp only [exact, sumSettled_append, sumOpen_append, tradedCredit_add,
    tradedInventory_add, reservedCredit_add, reservedInventory_add] <;> omega

theorem exact_cons (o : Order) (os : List Order) : exact (o :: os) = exact [o] + exact os :=
  exact_append [o] os

/-- An order adds to the totals what a list of this order alone comes to. -/
theorem addOrder_eq_ok {t u : Totals} {o : Order} (h : t.addOrder o = .ok u) :
    u = t + exact [o] := by
  cases ht : o.trade with
  | some trade =>
    have removed : o.isRemoved := by simp [Order.isRemoved, Order.isSettled, ht]
    cases hs : o.side <;>
      simp only [addOrder, ht, hs, Checked.bind_eq_ok_iff, Checked.add_eq_ok_iff,
        Checked.sub_eq_ok_iff, Checked.mul_eq_ok_iff, pure, Except.pure, Except.ok.injEq] at h <;>
      obtain ⟨_, ⟨_, rfl⟩, _, ⟨_, rfl⟩, _, ⟨_, rfl⟩, rfl⟩ := h <;>
      ext <;>
      simp [exact, sumSettled_of_trade ht, sumOpen_of_isRemoved removed, hs, Order.tradedValue,
        Order.tradedAmount, Int.sub_eq_add_neg]
  | none =>
    by_cases hc : o.isClosed
    · have removed : o.isRemoved := by simp [Order.isRemoved, hc]
      have same : t = u := by
        cases hs : o.side <;> simpa [addOrder, ht, hs, hc] using h
      ext <;> simp [exact, sumSettled_of_no_trade ht, sumOpen_of_isRemoved removed, same]
    · have resting : o.isOpen := by simp [Order.isOpen, Order.isRemoved, Order.isSettled, ht, hc]
      cases hs : o.side <;>
        simp only [addOrder, ht, hs, hc, Bool.false_eq_true, if_false, Order.notional,
          Checked.bind_eq_ok_iff, Checked.add_eq_ok_iff, Checked.mul_eq_ok_iff, pure, Except.pure,
          Except.ok.injEq] at h
      · obtain ⟨_, ⟨_, rfl⟩, _, ⟨_, rfl⟩, rfl⟩ := h
        ext <;> simp [exact, sumSettled_of_no_trade ht, sumOpen_of_isOpen resting, hs,
          Order.limitValue]
      · obtain ⟨_, ⟨_, rfl⟩, rfl⟩ := h
        ext <;> simp [exact, sumSettled_of_no_trade ht, sumOpen_of_isOpen resting, hs]

/-- Totals that do not overflow are exact. -/
theorem ofOrders_eq_ok {orders : List Order} {t : Totals} (h : ofOrders orders = .ok t) :
    t = exact orders := by
  -- the totals grow at the end of the list, so the induction takes orders off there
  induction orders using List.reverseRecOn generalizing t with
  | nil => exact (Except.ok.inj h).symm
  | append_singleton os o ih =>
    rw [ofOrders, List.foldlM_append] at h
    obtain ⟨u, hu, hstep⟩ := Checked.bind_eq_ok_iff.mp h
    simp only [List.foldlM_cons, List.foldlM_nil, bind_pure] at hstep
    rw [addOrder_eq_ok hstep, ih hu, exact_append]

end Totals

namespace Ledger

/-- The ledger over a list of orders as unbounded numbers give it. -/
def exactOver (l : Ledger) (orders : List Order) : Ledger :=
  { l with
    orders
    credit := l.initialCredit + (Totals.exact orders).tradedCredit
    inventory := l.initialInventory + (Totals.exact orders).tradedInventory
    reservedCredit := (Totals.exact orders).reservedCredit
    reservedInventory := (Totals.exact orders).reservedInventory }

theorem withOrders_eq_ok {l l' : Ledger} {orders : List Order}
    (h : l.withOrders orders = .ok l') : l' = l.exactOver orders := by
  simp only [withOrders, Checked.bind_eq_ok_iff, Checked.add_eq_ok_iff, pure, Except.pure,
    Except.ok.injEq] at h
  obtain ⟨totals, ht, _, ⟨_, rfl⟩, _, ⟨_, rfl⟩, rfl⟩ := h
  rw [Totals.ofOrders_eq_ok ht]
  rfl

/-- A reconciliation gets as far as to take over the exchange's list. -/
def commits (l : Ledger) (remote : List Order) (now : Timestamp) : Bool :=
  (latestUnreflected l.orders remote).isNone &&
    match merge l.orders remote now with
    | .error _ => false
    | .ok merged => (l.withOrders merged).isOk

theorem latestUnreflected_eq_some {orders remote : List Order} {failure : Failure}
    (h : latestUnreflected orders remote = some failure) :
    ∃ id actual, failure = .orderNotReflected id actual := by
  unfold latestUnreflected at h
  split at h
  · simp at h
  · next latest _ =>
    split at h
    · refine ⟨latest.id, remote.getLast?.map Order.id, ?_⟩
      have visible : ¬ remote.getLast?.map Order.id = some latest.id := by
        intro hv
        simp [hv] at h
      simpa [visible, eq_comm] using h
    · simp at h

theorem mergeOrder_eq_error {remote : List Order} {now : Timestamp} {o : Order} {failure : Failure}
    (h : mergeOrder remote now o = .error failure) : failure = .sellOrderVanished o.id := by
  unfold mergeOrder at h
  split at h
  · simp at h
  · split at h <;> simp_all

theorem merge_eq_error {orders remote : List Order} {now : Timestamp} {failure : Failure}
    (h : merge orders remote now = .error failure) : ∃ id, failure = .sellOrderVanished id := by
  induction orders with
  | nil => simp [merge, pure, Except.pure] at h
  | cons o os ih =>
    cases ho : mergeOrder remote now o with
    | error f =>
      have hf : failure = f := by simpa [merge, ho, bind, Except.bind, eq_comm] using h
      exact ⟨o.id, hf.trans (mergeOrder_eq_error ho)⟩
    | ok o' =>
      apply ih
      cases hos : os.mapM (mergeOrder remote now) with
      | error f => simpa [merge, ho, hos, bind, Except.bind] using h
      | ok os' => simp [merge, ho, hos, bind, Except.bind, pure, Except.pure] at h

/-- A reconciliation that does not take over the list keeps the ledger, and an order is missing or a
number overflows. -/
theorem reconcile_of_not_commits {l : Ledger} {remote : List Order} {now : Timestamp}
    (h : l.commits remote now = false) :
    (l.reconcile remote now).1 = l ∧
    ((∃ fault, (l.reconcile remote now).2 = .error fault) ∨
      (∃ id actual, (l.reconcile remote now).2 = .ok (.error (.orderNotReflected id actual))) ∨
      ∃ id, (l.reconcile remote now).2 = .ok (.error (.sellOrderVanished id))) := by
  cases hu : latestUnreflected l.orders remote with
  | some failure =>
    obtain ⟨id, actual, rfl⟩ := latestUnreflected_eq_some hu
    simp [reconcile, hu]
  | none =>
    cases hm : merge l.orders remote now with
    | error failure =>
      obtain ⟨id, rfl⟩ := merge_eq_error hm
      simp [reconcile, hu, hm]
    | ok merged =>
      cases hw : l.withOrders merged with
      | error fault => simp [reconcile, hu, hm, hw]
      | ok committed => simp [commits, hu, hm, hw, Except.isOk, Except.toBool] at h

/-- A reconciliation that takes over the list leaves the exact ledger over the merged orders. -/
theorem reconcile_of_commits {l : Ledger} {remote : List Order} {now : Timestamp}
    (h : l.commits remote now) :
    ∃ merged, merge l.orders remote now = .ok merged ∧
      (l.reconcile remote now).1 = l.exactOver merged ∧
      (l.reconcile remote now).2 =
        if (l.exactOver merged).isOvercommitted then (l.exactOver merged).desync.map .error
        else .ok (.ok
          { autoCancelled := countAutoCancelled l.orders remote
            newlySettled := countNewlySettled l.orders remote
            stillOpen := merged.countP Order.isOpen }) := by
  cases hu : latestUnreflected l.orders remote with
  | some failure => simp [commits, hu] at h
  | none =>
    cases hm : merge l.orders remote now with
    | error failure => simp [commits, hm] at h
    | ok merged =>
      cases hw : l.withOrders merged with
      | error fault => simp [commits, hm, hw, Except.isOk, Except.toBool] at h
      | ok committed =>
        obtain rfl := withOrders_eq_ok hw
        refine ⟨merged, rfl, ?_, ?_⟩
        · simp only [reconcile, hu, hm, hw]
          split <;> rfl
        · simp only [reconcile, hu, hm, hw]
          split <;> rfl

/-- A reconciliation keeps the ledger or leaves the exact one over the merged orders. -/
theorem ledger_of_reconcile (l : Ledger) (remote : List Order) (now : Timestamp) :
    (l.reconcile remote now).1 = l ∨
      ∃ merged, merge l.orders remote now = .ok merged ∧
        (l.reconcile remote now).1 = l.exactOver merged := by
  cases hc : l.commits remote now with
  | false => exact .inl (reconcile_of_not_commits hc).1
  | true =>
    obtain ⟨merged, hm, ledger, -⟩ := reconcile_of_commits hc
    exact .inr ⟨merged, hm, ledger⟩

/-- The reconciliation came to an end and took over the list: it succeeded, or found that more is
reserved than held. -/
def TookOver (result : Outcome Report) : Prop :=
  (∃ report, result = .ok (.ok report)) ∨
    ∃ credit inventory, result = .ok (.error (.balanceDesync credit inventory))

theorem commits_of_tookOver {l : Ledger} {remote : List Order} {now : Timestamp}
    (h : TookOver (l.reconcile remote now).2) : l.commits remote now := by
  by_contra hc
  have kept := (reconcile_of_not_commits (Bool.eq_false_iff.mpr hc)).2
  obtain ⟨_, hr⟩ | ⟨_, _, hr⟩ | ⟨_, hr⟩ := kept
  all_goals simp [TookOver, hr] at h

end Ledger

end TradingLoad
