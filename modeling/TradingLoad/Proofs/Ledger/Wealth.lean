import TradingLoad.Proofs.Ledger.Exits
import Mathlib.Algebra.Order.BigOperators.Group.List

namespace TradingLoad

namespace Order

/-- The limit or the price of the trade, whichever is higher. -/
def topPrice (o : Order) : Int :=
  match o.trade with
  | none => o.price
  | some trade => max o.price trade.price

/-- The most that the order costs or brings. -/
def worth (o : Order) : Int := o.amount * o.topPrice

structure IsNonnegative (o : Order) : Prop where
  amount : 0 ≤ o.amount
  price : 0 ≤ o.price
  tradePrice : ∀ trade, o.trade = some trade → 0 ≤ trade.price

variable {o : Order} {trade : Trade}

theorem isNonnegative_iff : o.IsNonnegative ↔
    0 ≤ o.amount ∧ 0 ≤ o.price ∧ ∀ trade ∈ o.trade, 0 ≤ trade.price :=
  ⟨fun ⟨amount, price, tradePrice⟩ => ⟨amount, price, tradePrice⟩,
    fun ⟨amount, price, tradePrice⟩ => ⟨amount, price, tradePrice⟩⟩

instance : Decidable o.IsNonnegative := decidable_of_iff' _ isNonnegative_iff

theorem price_le_topPrice (o : Order) : o.price ≤ o.topPrice := by
  unfold topPrice
  split
  · exact Int.le_refl _
  · exact Int.le_max_left _ _

theorem tradePrice_le_topPrice (settled : o.trade = some trade) : trade.price ≤ o.topPrice := by
  simp only [topPrice, settled]
  exact Int.le_max_right _ _

namespace IsNonnegative

variable (sound : o.IsNonnegative)

include sound

theorem limitValue_nonneg : 0 ≤ o.limitValue := Int.mul_nonneg sound.amount sound.price

theorem limitValue_le_worth : o.limitValue ≤ o.worth :=
  Int.mul_le_mul_of_nonneg_left o.price_le_topPrice sound.amount

theorem worth_nonneg : 0 ≤ o.worth := sound.limitValue_nonneg.trans sound.limitValue_le_worth

theorem tradedValue_nonneg (settled : o.trade = some trade) : 0 ≤ o.tradedValue trade :=
  Int.mul_nonneg sound.amount (sound.tradePrice trade settled)

theorem tradedValue_le_worth (settled : o.trade = some trade) : o.tradedValue trade ≤ o.worth :=
  Int.mul_le_mul_of_nonneg_left (tradePrice_le_topPrice settled) sound.amount

end IsNonnegative

end Order

/-- What all the orders of a list are worth. -/
def sumWorth (orders : List Order) : Int := (orders.map Order.worth).sum

/-- The units of all the orders of a list. -/
def sumAmounts (orders : List Order) : Int := (orders.map Order.amount).sum

namespace Totals

/-- What orders of so much worth and so many units come to: what they have moved, whichever way, and
what they tie up are together no more. -/
structure Within (worth units : Int) (t : Totals) : Prop where
  reservedCredit : 0 ≤ t.reservedCredit
  reservedInventory : 0 ≤ t.reservedInventory
  gained : t.tradedCredit + t.reservedCredit ≤ worth
  spent : t.reservedCredit - t.tradedCredit ≤ worth
  bought : t.tradedInventory + t.reservedInventory ≤ units
  sold : t.reservedInventory - t.tradedInventory ≤ units

variable {worth worth' units units' : Int} {t u : Totals} {o : Order} {orders : List Order}

theorem within_zero : Within 0 0 zero := by constructor <;> decide

theorem Within.add (here : Within worth units t) (there : Within worth' units' u) :
    Within (worth + worth') (units + units') (t + u) := by
  obtain ⟨_, _, _, _, _, _⟩ := here
  obtain ⟨_, _, _, _, _, _⟩ := there
  constructor <;> simp only [tradedCredit_add, tradedInventory_add, reservedCredit_add,
    reservedInventory_add] <;> omega

theorem exact_of_sold {trade : Trade} (settled : o.trade = some trade) (sell : o.side = .sell) :
    exact [o] = ⟨o.tradedValue trade, -o.amount, 0, 0⟩ := by
  have removed := Order.isRemoved_of_trade settled
  simp [exact, sumSettled_of_trade settled, sumOpen_of_isRemoved removed, sell, Order.tradedAmount]

theorem exact_of_bought {trade : Trade} (settled : o.trade = some trade) (buy : o.side = .buy) :
    exact [o] = ⟨-o.tradedValue trade, o.amount, 0, 0⟩ := by
  have removed := Order.isRemoved_of_trade settled
  simp [exact, sumSettled_of_trade settled, sumOpen_of_isRemoved removed, buy, Order.tradedAmount]

theorem exact_of_offer (resting : o.isOpen) (sell : o.side = .sell) :
    exact [o] = ⟨0, 0, 0, o.amount⟩ := by
  have untraded := Order.trade_of_isOpen resting
  simp [exact, sumSettled_of_no_trade untraded, sumOpen_of_isOpen resting, sell]

theorem exact_of_bid (resting : o.isOpen) (buy : o.side = .buy) :
    exact [o] = ⟨0, 0, o.limitValue, 0⟩ := by
  have untraded := Order.trade_of_isOpen resting
  simp [exact, sumSettled_of_no_trade untraded, sumOpen_of_isOpen resting, buy]

theorem exact_of_isClosed (untraded : o.trade = none) (closed : o.isClosed) : exact [o] = zero := by
  have removed := Order.isRemoved_of_isClosed closed
  simp [exact, zero, sumSettled_of_no_trade untraded, sumOpen_of_isRemoved removed]

/-- An order counts by its trade, or by its limit, or not at all. -/
inductive Counts (o : Order) : Prop where
  | sold (trade : Trade) (settled : o.trade = some trade) (sell : o.side = .sell)
  | bought (trade : Trade) (settled : o.trade = some trade) (buy : o.side = .buy)
  | offer (resting : o.isOpen) (sell : o.side = .sell)
  | bid (resting : o.isOpen) (buy : o.side = .buy)
  | closed (untraded : o.trade = none) (closed : o.isClosed)

theorem counts (o : Order) : Counts o := by
  cases settled : o.trade with
  | some trade =>
    cases side : o.side with
    | sell => exact .sold trade settled side
    | buy => exact .bought trade settled side
  | none =>
    by_cases closed : o.isClosed
    · exact .closed settled closed
    · have resting : o.isOpen := by
        simp [Order.isOpen, Order.isRemoved, Order.isSettled, settled, closed]
      cases side : o.side with
      | sell => exact .offer resting side
      | buy => exact .bid resting side

theorem within_exact_singleton (sound : o.IsNonnegative) :
    Within o.worth o.amount (exact [o]) := by
  have amount := sound.amount
  have worth := sound.worth_nonneg
  cases counts o with
  | sold trade settled sell =>
    have low := sound.tradedValue_nonneg settled
    have high := sound.tradedValue_le_worth settled
    rw [exact_of_sold settled sell]
    constructor <;> simp only <;> omega
  | bought trade settled buy =>
    have low := sound.tradedValue_nonneg settled
    have high := sound.tradedValue_le_worth settled
    rw [exact_of_bought settled buy]
    constructor <;> simp only <;> omega
  | offer resting sell =>
    rw [exact_of_offer resting sell]
    constructor <;> simp only <;> omega
  | bid resting buy =>
    have low := sound.limitValue_nonneg
    have high := sound.limitValue_le_worth
    rw [exact_of_bid resting buy]
    constructor <;> simp only <;> omega
  | closed untraded closed =>
    rw [exact_of_isClosed untraded closed]
    constructor <;> simp only [zero] <;> omega

/-- Each of the sums is a number. -/
structure Fits (t : Totals) : Prop where
  tradedCredit : InInt64 t.tradedCredit
  tradedInventory : InInt64 t.tradedInventory
  reservedCredit : InInt64 t.reservedCredit
  reservedInventory : InInt64 t.reservedInventory

theorem Within.fits (within : Within worth units t) (rich : worth ≤ 0x7fffffffffffffff)
    (many : units ≤ 0x7fffffffffffffff) : t.Fits := by
  obtain ⟨_, _, _, _, _, _⟩ := within
  constructor <;> unfold InInt64 <;> omega

theorem addOrder_of_isClosed (untraded : o.trade = none) (closed : o.isClosed) :
    t.addOrder o = .ok t := by
  simp [addOrder, untraded, closed]

/-- An order can be added if the sums with it are numbers, and so is its value. -/
theorem addOrder_of_fits (sound : o.IsNonnegative) (small : o.worth ≤ 0x7fffffffffffffff)
    (fits : (t + exact [o]).Fits) : t.addOrder o = .ok (t + exact [o]) := by
  obtain ⟨u, added⟩ : ∃ u, t.addOrder o = .ok u := by
    cases counts o with
    | sold trade settled sell =>
      rw [exact_of_sold settled sell] at fits
      have low := sound.tradedValue_nonneg settled
      have high := sound.tradedValue_le_worth settled
      have product : Checked.mul o.amount trade.price = .ok (o.tradedValue trade) :=
        Checked.mul_eq_ok_iff.mpr ⟨by rw [← Order.tradedValue]; unfold InInt64; omega, rfl⟩
      have inventory : Checked.sub t.tradedInventory o.amount = .ok _ :=
        Checked.sub_eq_ok_iff.mpr ⟨fits.tradedInventory, rfl⟩
      have credit : Checked.add t.tradedCredit (o.tradedValue trade) = .ok _ :=
        Checked.add_eq_ok_iff.mpr ⟨fits.tradedCredit, rfl⟩
      simp [addOrder, settled, sell, inventory, product, credit, bind, Except.bind, pure,
        Except.pure]
    | bought trade settled buy =>
      rw [exact_of_bought settled buy] at fits
      have low := sound.tradedValue_nonneg settled
      have high := sound.tradedValue_le_worth settled
      have product : Checked.mul o.amount trade.price = .ok (o.tradedValue trade) :=
        Checked.mul_eq_ok_iff.mpr ⟨by rw [← Order.tradedValue]; unfold InInt64; omega, rfl⟩
      have inventory : Checked.add t.tradedInventory o.amount = .ok _ :=
        Checked.add_eq_ok_iff.mpr ⟨fits.tradedInventory, rfl⟩
      have credit : Checked.sub t.tradedCredit (o.tradedValue trade) = .ok _ :=
        Checked.sub_eq_ok_iff.mpr ⟨fits.tradedCredit, rfl⟩
      simp [addOrder, settled, buy, inventory, product, credit, bind, Except.bind, pure,
        Except.pure]
    | offer resting sell =>
      rw [exact_of_offer resting sell] at fits
      have reserved : Checked.add t.reservedInventory o.amount = .ok _ :=
        Checked.add_eq_ok_iff.mpr ⟨fits.reservedInventory, rfl⟩
      simp [addOrder, Order.trade_of_isOpen resting, Order.isClosed_eq_false resting, sell,
        reserved, bind, Except.bind, pure, Except.pure]
    | bid resting buy =>
      rw [exact_of_bid resting buy] at fits
      have low := sound.limitValue_nonneg
      have high := sound.limitValue_le_worth
      have product : o.notional = .ok o.limitValue :=
        Checked.mul_eq_ok_iff.mpr ⟨by rw [← Order.limitValue]; unfold InInt64; omega, rfl⟩
      have reserved : Checked.add t.reservedCredit o.limitValue = .ok _ :=
        Checked.add_eq_ok_iff.mpr ⟨fits.reservedCredit, rfl⟩
      simp [addOrder, Order.trade_of_isOpen resting, Order.isClosed_eq_false resting, buy,
        product, reserved, bind, Except.bind, pure, Except.pure]
    | closed untraded closed => exact ⟨t, addOrder_of_isClosed untraded closed⟩
  rw [added, addOrder_eq_ok added]

theorem Within.worth_nonneg (within : Within worth units t) : 0 ≤ worth := by
  obtain ⟨_, _, _, _, _, _⟩ := within
  omega

theorem sumWorth_nonneg (sound : ∀ o ∈ orders, o.IsNonnegative) : 0 ≤ sumWorth orders := by
  apply List.sum_nonneg
  intro worth mem
  obtain ⟨o, listed, rfl⟩ := List.mem_map.mp mem
  exact (sound o listed).worth_nonneg

theorem sumAmounts_nonneg (sound : ∀ o ∈ orders, o.IsNonnegative) : 0 ≤ sumAmounts orders := by
  apply List.sum_nonneg
  intro amount mem
  obtain ⟨o, listed, rfl⟩ := List.mem_map.mp mem
  exact (sound o listed).amount

/-- Totals go on to be within bounds as orders are added, up to the last one. -/
theorem Within.foldlM_addOrder (within : Within worth units t)
    (sound : ∀ o ∈ orders, o.IsNonnegative)
    (rich : worth + sumWorth orders ≤ 0x7fffffffffffffff)
    (many : units + sumAmounts orders ≤ 0x7fffffffffffffff) :
    ∃ u, orders.foldlM addOrder t = .ok u ∧
      Within (worth + sumWorth orders) (units + sumAmounts orders) u := by
  induction orders generalizing worth units t with
  | nil => exact ⟨t, rfl, by simpa [sumWorth, sumAmounts] using within⟩
  | cons o os ih =>
    obtain ⟨first, rest⟩ := List.forall_mem_cons.mp sound
    have worthies := sumWorth_nonneg rest
    have amounts := sumAmounts_nonneg rest
    have before := within.worth_nonneg
    simp only [sumWorth, sumAmounts, List.map_cons, List.sum_cons, ← Int.add_assoc] at rich many ⊢
    rw [sumWorth] at worthies
    rw [sumAmounts] at amounts
    -- the bound is on the sum of moves and reservations, so it does not matter which way each goes
    have more := within.add (within_exact_singleton first)
    have fits : (t + exact [o]).Fits := more.fits (by omega) (by omega)
    have added := addOrder_of_fits first (by omega) fits
    obtain ⟨u, sums, within'⟩ := ih more rest rich many
    exact ⟨u, by rw [List.foldlM_cons, added]; exact sums, within'⟩

end Totals

namespace Ledger

variable {l : Ledger} {orders remote merged : List Order} {now : Timestamp} {t : Totals}

/-- The orders that count after a reconciliation: the removed ones, and the exchange's versions of
the open ones. -/
def versions (orders remote : List Order) : List Order :=
  orders.filterMap fun o => if o.isRemoved then some o else remoteOf remote o

/-- Neither the endowment nor any of the orders has a negative number, and with all that the orders
are worth the endowment is still a number. -/
structure Bounded (l : Ledger) (orders : List Order) : Prop where
  credit : 0 ≤ l.initialCredit
  inventory : 0 ≤ l.initialInventory
  sound : ∀ o ∈ orders, o.IsNonnegative
  worth : l.initialCredit + sumWorth orders ≤ 0x7fffffffffffffff
  amounts : l.initialInventory + sumAmounts orders ≤ 0x7fffffffffffffff

theorem bounded_iff : l.Bounded orders ↔
    0 ≤ l.initialCredit ∧ 0 ≤ l.initialInventory ∧ (∀ o ∈ orders, o.IsNonnegative) ∧
      l.initialCredit + sumWorth orders ≤ 0x7fffffffffffffff ∧
      l.initialInventory + sumAmounts orders ≤ 0x7fffffffffffffff :=
  ⟨fun ⟨credit, inventory, sound, worth, amounts⟩ => ⟨credit, inventory, sound, worth, amounts⟩,
    fun ⟨credit, inventory, sound, worth, amounts⟩ => ⟨credit, inventory, sound, worth, amounts⟩⟩

instance : Decidable (l.Bounded orders) := decidable_of_iff' _ bounded_iff

/-- A buy that the exchange has dropped does not count. -/
theorem foldlM_of_takens (takens : List.Forall₂ (Taken remote now) orders merged) :
    merged.foldlM Totals.addOrder t = (versions orders remote).foldlM Totals.addOrder t := by
  induction takens generalizing t with
  | nil => rfl
  | @cons o o' os os' taken takens ih =>
    cases taken with
    | removed removed =>
      have kept : versions (o :: os) remote = o :: versions os remote := by
        simp [versions, removed]
      rw [kept, List.foldlM_cons, List.foldlM_cons]
      exact bind_congr fun u => ih
    | listed resting first =>
      have replaced : versions (o :: os) remote = o' :: versions os remote := by
        have found : remoteOf remote o = some o' := first
        simp [versions, isRemoved_eq_false resting, found]
      rw [replaced, List.foldlM_cons, List.foldlM_cons]
      exact bind_congr fun u => ih
    | dropped resting buy absent =>
      have left : versions (o :: os) remote = versions os remote := by
        simp [versions, isRemoved_eq_false resting, remoteOf_eq_none.mpr absent]
      have untraded : o.trade = none := Order.trade_of_isOpen resting
      have idle : t.addOrder { o with closedAt := some now } = .ok t :=
        Totals.addOrder_of_isClosed untraded rfl
      rw [left, List.foldlM_cons, idle]
      exact ih

/-- The balances of a bounded ledger are numbers, and so is what they leave free. -/
theorem withOrders_of_bounded (bounded : l.Bounded (versions l.orders remote))
    (merges : merge l.orders remote now = .ok merged) :
    ∃ l', l.withOrders merged = .ok l' ∧ InInt64 (l'.credit - l'.reservedCredit) ∧
      InInt64 (l'.inventory - l'.reservedInventory) := by
  obtain ⟨credit, inventory, sound, worth, amounts⟩ := bounded
  obtain ⟨t, sums, within⟩ := Totals.within_zero.foldlM_addOrder sound (by omega) (by omega)
  rw [Int.zero_add, Int.zero_add] at within
  obtain ⟨reservedCredit, reservedInventory, gained, spent, bought, sold⟩ := within
  have totals : Totals.ofOrders merged = .ok t :=
    (foldlM_of_takens (takens_of_merge merges)).trans sums
  have credits :
      Checked.add l.initialCredit t.tradedCredit = .ok (l.initialCredit + t.tradedCredit) :=
    Checked.add_eq_ok_iff.mpr ⟨by unfold InInt64; omega, rfl⟩
  have units : Checked.add l.initialInventory t.tradedInventory =
      .ok (l.initialInventory + t.tradedInventory) :=
    Checked.add_eq_ok_iff.mpr ⟨by unfold InInt64; omega, rfl⟩
  refine ⟨{ l with
    orders := merged
    credit := l.initialCredit + t.tradedCredit
    inventory := l.initialInventory + t.tradedInventory
    reservedCredit := t.reservedCredit
    reservedInventory := t.reservedInventory }, ?_, ?_, ?_⟩
  · simp [withOrders, totals, credits, units, bind, Except.bind, pure, Except.pure]
  · simp only [InInt64]
    omega
  · simp only [InInt64]
    omega

/-- The reconciliation ended before it took over the list, as an order is not where it should be. -/
def Refused (result : Outcome Report) : Prop :=
  (∃ expected actual, result = .ok (.error (.orderNotReflected expected actual))) ∨
    ∃ id, result = .ok (.error (.sellOrderVanished id))

theorem Refused.not_tookOver {result : Outcome Report} (refused : Refused result) :
    ¬ TookOver result := by
  obtain ⟨expected, actual, rfl⟩ | ⟨id, rfl⟩ := refused <;> simp [TookOver]

theorem exists_ok_of_refused {result : Outcome Report} (refused : Refused result) :
    ∃ answer, result = .ok answer := by
  obtain ⟨expected, actual, rfl⟩ | ⟨id, rfl⟩ := refused <;> exact ⟨_, rfl⟩

theorem exists_ok_of_tookOver {result : Outcome Report} (took : TookOver result) :
    ∃ answer, result = .ok answer := by
  obtain ⟨report, rfl⟩ | ⟨credit, inventory, rfl⟩ := took <;> exact ⟨_, rfl⟩

/-- What is left of the endowment beside the reservations is a number. -/
def IsFree (l : Ledger) : Prop :=
  (∃ credit, l.availableCredit = .ok credit) ∧ ∃ inventory, l.availableInventory = .ok inventory

theorem tookOver_of_bounded (bounded : l.Bounded (versions l.orders remote))
    (shown : LatestShown l.orders remote) (complete : l.orders.find? (isMissing remote) = none) :
    TookOver (l.reconcile remote now).2 ∧ (l.reconcile remote now).1.IsFree := by
  obtain ⟨merged, merges⟩ : ∃ merged, merge l.orders remote now = .ok merged :=
    merge_of_none_missing complete
  obtain ⟨committed, balances, credit, inventory⟩ := withOrders_of_bounded bounded merges
  have fits := not_breaksOff_of_ok merges balances
  obtain ⟨merged', merges', ledger, -⟩ :=
    reconcile_of_commits (commits_of_complete shown complete fits)
  obtain rfl : merged = merged' := Except.ok.inj (merges.symm.trans merges')
  rw [← withOrders_eq_ok balances] at ledger
  obtain ⟨-, verdict⟩ := reconcile_of_complete shown complete fits
  rw [ledger] at verdict ⊢
  refine ⟨?_, ⟨_, Checked.sub_eq_ok_iff.mpr ⟨credit, rfl⟩⟩,
    ⟨_, Checked.sub_eq_ok_iff.mpr ⟨inventory, rfl⟩⟩⟩
  generalize (l.reconcile remote now).2 = result at verdict
  cases verdict with
  | enough report => exact .inl ⟨report, rfl⟩
  | short => exact .inr ⟨_, _, rfl⟩
  | beyond fault excess large => exact absurd ⟨credit, inventory⟩ large

theorem tookOver_or_refused (now : Timestamp)
    (bounded : l.Bounded (versions l.orders remote)) :
    TookOver (l.reconcile remote now).2 ∧ (l.reconcile remote now).1.IsFree ∨
      (l.reconcile remote now).1 = l ∧ Refused (l.reconcile remote now).2 := by
  by_cases shown : LatestShown l.orders remote
  · cases missing : l.orders.find? (isMissing remote) with
    | none => exact .inl (tookOver_of_bounded bounded shown missing)
    | some o =>
      rw [reconcile_of_missing now shown missing]
      exact .inr ⟨rfl, .inr ⟨_, rfl⟩⟩
  · obtain ⟨latest, -, -, -, -, exit⟩ := reconcile_of_not_shown now shown
    rw [exit]
    exact .inr ⟨rfl, .inl ⟨_, _, rfl⟩⟩

/-- As long as the merged orders and the endowment together are worth a number, a reconciliation
does not end in a fault. If it takes over the exchange's list, what is free afterwards is a number;
else an order is not where it should be, and the ledger stays as it was. -/
theorem no_fault_within_worth (l : Ledger) (remote : List Order) (now : Timestamp)
    (bounded : l.Bounded (versions l.orders remote)) :
    let l' := (l.reconcile remote now).1
    let result := (l.reconcile remote now).2
    (∃ answer, result = .ok answer) ∧
    (TookOver result → (∃ credit, l'.availableCredit = .ok credit) ∧
      ∃ inventory, l'.availableInventory = .ok inventory) ∧
    (¬ TookOver result → Refused result ∧ l' = l) := by
  intro l' result
  obtain ⟨took, free⟩ | ⟨same, refused⟩ := tookOver_or_refused now bounded
  · exact ⟨exists_ok_of_tookOver took, fun _ => free, fun kept => absurd took kept⟩
  · exact ⟨exists_ok_of_refused refused, fun took => absurd took refused.not_tookOver,
      fun _ => ⟨refused, same⟩⟩

/-- All the money there is, and a bid and an offer. -/
def wealthy : Ledger :=
  ((new 0x7fffffffffffffff 1).recordPlaced (.placed 1 .buy 1 1 .epoch)).recordPlaced
    (.placed 2 .sell 1 0 .epoch)

/-- A bid at a negative price leaves more free than there is. When the exchange has corrected it,
but lists the offer first, the ledger stays as it is. -/
theorem overflow_left_as_it_was :
    let offer := Order.placed 2 .sell 1 0 .epoch
    let l := (wealthy.reconcile [.placed 1 .buy 1 (-1) .epoch, offer] .epoch).1
    let remote := [offer, .placed 1 .buy 0 0 .epoch]
    l.Bounded (versions l.orders remote) ∧
      (l.reconcile remote .epoch).2 = .ok (.error (.orderNotReflected 2 (some 1))) ∧
      (l.reconcile remote .epoch).1.availableCredit = .error .subOverflow := by
  decide

/-- The exchange has settled the first of two buys, which together cost all the money that can be
told, and the investor has none. -/
theorem desync_told_at_the_bound :
    let bid := Order.placed 1 .buy 1 0x4000000000000000 .epoch
    let other := Order.placed 2 .buy 1 0x3fffffffffffffff .epoch
    let settled := { bid with trade := some ⟨1, 1, 0x4000000000000000, .epoch⟩ }
    let l := ((new 0 0).recordPlaced bid).recordPlaced other
    l.Bounded (versions l.orders [settled, other]) ∧
      (∃ answer, (l.reconcile [settled, other] .epoch).2 = .ok answer) ∧
      (l.reconcile [settled, other] .epoch).2 =
        .ok (.error (.balanceDesync (-0x7fffffffffffffff) 1)) ∧
      (∃ credit, (l.reconcile [settled, other] .epoch).1.availableCredit = .ok credit) := by
  intro bid other settled l
  have bounded : l.Bounded (versions l.orders [settled, other]) := by decide
  obtain ⟨answered, free, -⟩ := no_fault_within_worth l [settled, other] .epoch bounded
  have desync : (l.reconcile [settled, other] .epoch).2 =
      .ok (.error (.balanceDesync (-0x7fffffffffffffff) 1)) := by decide
  exact ⟨bounded, answered, desync, (free (.inr ⟨_, _, desync⟩)).1⟩

end Ledger

end TradingLoad
