import TradingLoad.Proofs.Ledger.History
import Mathlib.Data.List.Forall2

namespace TradingLoad

namespace Order

/-- A trade settles a buy at its limit or below, a sell at any price that is none below zero. -/
def Admits (o : Order) (t : Trade) : Prop :=
  match o.side with
  | .buy => t.price ≤ o.price
  | .sell => 0 ≤ t.price

/-- The second order is the first one later on. An open order may have been settled, an open buy may
have been closed, and what is removed stays so. -/
structure Follows (o o' : Order) : Prop where
  id : o'.id = o.id
  side : o'.side = o.side
  amount : o'.amount = o.amount
  price : o'.price = o.price
  removed : o.isRemoved → o'.isRemoved ∧ o'.trade = o.trade
  resting : o.isOpen → o'.isOpen ∨ (∃ t, o'.trade = some t ∧ o.Admits t) ∨
    (o.side = .buy ∧ o'.trade = none ∧ o'.isClosed)

/-- The order is for no negative amount, and as a buy at no negative price. -/
structure Valid (o : Order) : Prop where
  amount : 0 ≤ o.amount
  price : o.side = .buy → 0 ≤ o.price

variable {o o' o'' : Order}

theorem isOpen_or_isRemoved (o : Order) : o.isOpen ∨ o.isRemoved := by
  cases h : o.isRemoved <;> simp [isOpen, h]

theorem trade_of_isOpen (h : o.isOpen) : o.trade = none := by
  simp only [isOpen, isRemoved, isSettled, Bool.not_or, Bool.and_eq_true] at h
  simpa using h.1

theorem isSettled_eq_false (h : o.isOpen) : o.isSettled = false := by
  simp [isSettled, trade_of_isOpen h]

theorem isClosed_eq_false (h : o.isOpen) : o.isClosed = false := by
  simp only [isOpen, isRemoved, Bool.not_or, Bool.and_eq_true] at h
  simpa using h.2

theorem isRemoved_of_trade {t : Trade} (h : o.trade = some t) : o.isRemoved := by
  simp [isRemoved, isSettled, h]

theorem isRemoved_of_isClosed (h : o.isClosed) : o.isRemoved := by simp [isRemoved, h]

theorem Follows.refl (o : Order) : o.Follows o :=
  ⟨rfl, rfl, rfl, rfl, fun h => ⟨h, rfl⟩, .inl⟩

theorem Admits.of_follows {t : Trade} (h : o'.Admits t) (f : o.Follows o') : o.Admits t := by
  unfold Admits at h ⊢
  rw [f.side, f.price] at h
  exact h

theorem Follows.trans (h : o.Follows o') (k : o'.Follows o'') : o.Follows o'' := by
  refine ⟨k.id.trans h.id, k.side.trans h.side, k.amount.trans h.amount, k.price.trans h.price,
    ?_, ?_⟩
  · intro removed
    obtain ⟨removed', trade'⟩ := h.removed removed
    obtain ⟨removed'', trade''⟩ := k.removed removed'
    exact ⟨removed'', trade''.trans trade'⟩
  · intro resting
    obtain resting' | ⟨t, ht, admits⟩ | ⟨buy, untraded, closed⟩ := h.resting resting
    · obtain resting'' | ⟨t, ht, admits⟩ | ⟨buy, untraded, closed⟩ := k.resting resting'
      · exact .inl resting''
      · exact .inr (.inl ⟨t, ht, admits.of_follows h⟩)
      · exact .inr (.inr ⟨h.side.symm.trans buy, untraded, closed⟩)
    · obtain ⟨-, trade''⟩ := k.removed (isRemoved_of_trade ht)
      exact .inr (.inl ⟨t, trade''.trans ht, admits⟩)
    · obtain ⟨removed'', trade''⟩ := k.removed (isRemoved_of_isClosed closed)
      have untraded'' := trade''.trans untraded
      have closed'' : o''.isClosed := by
        simpa [isRemoved, isSettled, untraded''] using removed''
      exact .inr (.inr ⟨buy, untraded'', closed''⟩)

theorem Follows.valid_iff (h : o.Follows o') : o.Valid ↔ o'.Valid := by
  constructor
  · intro hv
    refine ⟨h.amount ▸ hv.amount, ?_⟩
    rw [h.side, h.price]
    exact hv.price
  · intro hv
    refine ⟨h.amount ▸ hv.amount, ?_⟩
    rw [← h.side, ← h.price]
    exact hv.price

end Order

namespace Totals

variable {o o' : Order}

/-- What a removed order comes to, its trade tells. -/
theorem exact_of_isRemoved (h : o.isRemoved) (h' : o'.isRemoved) (trade : o'.trade = o.trade)
    (side : o'.side = o.side) (amount : o'.amount = o.amount) : exact [o'] = exact [o] := by
  cases ht : o.trade with
  | none =>
    have ht' := trade.trans ht
    ext <;> simp [exact, sumSettled_of_no_trade, ht, ht', sumOpen_of_isRemoved, h, h']
  | some t =>
    have ht' := trade.trans ht
    ext <;> simp [exact, sumSettled_of_trade ht, sumSettled_of_trade ht', sumOpen_of_isRemoved, h,
      h', side, Order.tradedValue, Order.tradedAmount, amount]

theorem free_of_isOpen (h : o.isOpen) :
    (exact [o]).freeCredit = (if o.side = .buy then -o.limitValue else 0) ∧
      (exact [o]).freeInventory = if o.side = .sell then -o.amount else 0 := by
  have untraded := Order.trade_of_isOpen h
  cases hs : o.side <;>
    simp [freeCredit, freeInventory, exact, sumSettled_of_no_trade untraded, sumOpen_of_isOpen h,
      hs]

theorem free_of_trade {t : Trade} (h : o.trade = some t) :
    (exact [o]).freeCredit = (if o.side = .buy then -o.tradedValue t else o.tradedValue t) ∧
      (exact [o]).freeInventory = if o.side = .sell then -o.amount else o.amount := by
  have removed := Order.isRemoved_of_trade h
  cases hs : o.side <;>
    simp [freeCredit, freeInventory, exact, sumSettled_of_trade h, sumOpen_of_isRemoved removed,
      hs, Order.tradedAmount]

theorem free_of_isClosed (h : o.isClosed) (untraded : o.trade = none) :
    (exact [o]).freeCredit = 0 ∧ (exact [o]).freeInventory = 0 := by
  have removed := Order.isRemoved_of_isClosed h
  simp [freeCredit, freeInventory, exact, sumSettled_of_no_trade untraded,
    sumOpen_of_isRemoved removed]

/-- Whatever becomes of an order, it leaves at least as much free. -/
theorem free_le_of_follows (h : o.Follows o') (hv : o.Valid) :
    (exact [o]).freeCredit ≤ (exact [o']).freeCredit ∧
      (exact [o]).freeInventory ≤ (exact [o']).freeInventory := by
  obtain resting | removed := o.isOpen_or_isRemoved
  · obtain ⟨credit, inventory⟩ := free_of_isOpen resting
    rw [credit, inventory]
    have amount := hv.amount
    obtain resting' | ⟨t, ht, admits⟩ | ⟨buy, untraded, closed⟩ := h.resting resting
    · obtain ⟨credit', inventory'⟩ := free_of_isOpen resting'
      rw [credit', inventory', h.side, Order.limitValue, Order.limitValue, h.amount, h.price]
      exact ⟨Int.le_refl _, Int.le_refl _⟩
    · obtain ⟨credit', inventory'⟩ := free_of_trade ht
      rw [credit', inventory', h.side, Order.limitValue, Order.tradedValue, h.amount]
      unfold Order.Admits at admits
      cases hs : o.side with
      | buy =>
        rw [hs] at admits
        have cheaper : o.amount * t.price ≤ o.amount * o.price :=
          Int.mul_le_mul_of_nonneg_left admits amount
        simp only [if_true, reduceCtorEq, if_false]
        omega
      | sell =>
        rw [hs] at admits
        have earned : 0 ≤ o.amount * t.price := Int.mul_nonneg amount admits
        simp only [if_true, reduceCtorEq, if_false]
        omega
    · obtain ⟨credit', inventory'⟩ := free_of_isClosed closed untraded
      have worth : 0 ≤ o.limitValue := Int.mul_nonneg amount (hv.price buy)
      rw [credit', inventory', buy]
      simp only [if_true, reduceCtorEq, if_false]
      omega
  · obtain ⟨removed', trade⟩ := h.removed removed
    rw [exact_of_isRemoved removed removed' trade h.side h.amount]
    exact ⟨Int.le_refl _, Int.le_refl _⟩

end Totals

/-- The second list is the first one later on. -/
abbrev Evolves (orders later : List Order) : Prop := List.Forall₂ Order.Follows orders later

namespace Evolves

variable {orders later last : List Order}

theorem refl (orders : List Order) : Evolves orders orders :=
  List.forall₂_same.mpr fun o _ => Order.Follows.refl o

theorem trans (h : Evolves orders later) (k : Evolves later last) : Evolves orders last := by
  induction h generalizing last with
  | nil => exact k
  | cons first rest ih =>
    cases k with
    | cons first' rest' => exact .cons (first.trans first') (ih rest')

theorem ids (h : Evolves orders later) : later.map Order.id = orders.map Order.id := by
  induction h with
  | nil => rfl
  | cons first rest ih => rw [List.map_cons, List.map_cons, first.id, ih]

theorem valid_iff (h : Evolves orders later) :
    (∀ o ∈ orders, o.Valid) ↔ ∀ o ∈ later, o.Valid := by
  induction h with
  | nil => exact Iff.rfl
  | cons first rest ih => rw [List.forall_mem_cons, List.forall_mem_cons, first.valid_iff, ih]

/-- Nothing that happens to the orders takes away from what is free. -/
theorem free_le (h : Evolves orders later) (hv : ∀ o ∈ orders, o.Valid) :
    (Totals.exact orders).freeCredit ≤ (Totals.exact later).freeCredit ∧
      (Totals.exact orders).freeInventory ≤ (Totals.exact later).freeInventory := by
  induction h with
  | nil => exact ⟨Int.le_refl _, Int.le_refl _⟩
  | @cons o o' os os' first rest ih =>
    obtain ⟨credit, inventory⟩ := Totals.free_le_of_follows first (hv o List.mem_cons_self)
    obtain ⟨credits, inventories⟩ := ih fun o ho => hv o (List.mem_cons_of_mem _ ho)
    rw [Totals.exact_cons o, Totals.exact_cons o']
    simp only [Totals.freeCredit_add, Totals.freeInventory_add]
    omega

theorem append {o o' : Order} (h : Evolves orders later) (k : o.Follows o') :
    Evolves (orders ++ [o]) (later ++ [o']) :=
  List.rel_append h (.cons k .nil)

end Evolves

namespace Ledger

variable {orders later : List Order}

theorem ids_closeFirst (id : Int) (at_ : Timestamp) (orders : List Order) :
    (closeFirst id at_ orders).map Order.id = orders.map Order.id := by
  induction orders with
  | nil => rfl
  | cons o os ih =>
    rw [closeFirst]
    split
    · rfl
    · rw [List.map_cons, List.map_cons, ih]

theorem valid_closeFirst (id : Int) (at_ : Timestamp) (hv : ∀ o ∈ orders, o.Valid) :
    ∀ o ∈ closeFirst id at_ orders, o.Valid := by
  induction orders with
  | nil => exact hv
  | cons o os ih =>
    have head := hv o List.mem_cons_self
    have tail : ∀ o ∈ os, o.Valid := fun o ho => hv o (List.mem_cons_of_mem _ ho)
    rw [closeFirst]
    split
    · intro c hc
      obtain rfl | hc := List.mem_cons.mp hc
      · exact ⟨head.amount, head.price⟩
      · exact tail c hc
    · intro c hc
      obtain rfl | hc := List.mem_cons.mp hc
      · exact head
      · exact ih tail c hc

/-- Closing an open order leaves at least as much free. -/
theorem free_le_closeFirst {id : Int} {o : Order} (at_ : Timestamp)
    (found : orders.find? (·.id = id) = some o) (resting : o.isOpen) (hv : o.Valid) :
    (Totals.exact orders).freeCredit ≤ (Totals.exact (closeFirst id at_ orders)).freeCredit ∧
      (Totals.exact orders).freeInventory ≤
        (Totals.exact (closeFirst id at_ orders)).freeInventory := by
  have closed : ({ o with closedAt := some at_ } : Order).isClosed := rfl
  have untraded := Order.trade_of_isOpen resting
  obtain ⟨credit, inventory⟩ := Totals.free_of_isOpen resting
  obtain ⟨credit', inventory'⟩ := Totals.free_of_isClosed closed untraded
  have amount := hv.amount
  rw [exact_closeFirst, found]
  simp only [Totals.freeCredit_add, Totals.freeInventory_add, Totals.freeCredit_sub,
    Totals.freeInventory_sub, credit, credit', inventory, inventory']
  cases hs : o.side with
  | buy =>
    have worth : 0 ≤ o.limitValue := Int.mul_nonneg amount (hv.price hs)
    simp only [if_true, reduceCtorEq, if_false]
    omega
  | sell =>
    simp only [if_true, reduceCtorEq, if_false]
    omega

/-- A ledger that closes the order that the exchange has closed keeps up with it. -/
theorem evolves_closeFirst {id : Int} {o : Order} (at_ at' : Timestamp)
    (h : Evolves orders later) (found : later.find? (·.id = id) = some o) (resting : o.isOpen) :
    Evolves (closeFirst id at_ orders) (closeFirst id at' later) := by
  induction h with
  | nil => exact .nil
  | @cons a b as bs first rest ih =>
    by_cases hid : a.id = id
    · rw [closeFirst, if_pos hid, closeFirst, if_pos (first.id.trans hid)]
      obtain rfl : b = o := by simpa [List.find?_cons, first.id, hid] using found
      have restingBefore : a.isOpen := by
        obtain resting' | removed := a.isOpen_or_isRemoved
        · exact resting'
        · simp [Order.isOpen, (first.removed removed).1] at resting
      have same : b.trade = a.trade := by
        rw [Order.trade_of_isOpen resting, Order.trade_of_isOpen restingBefore]
      refine .cons ?_ rest
      refine ⟨first.id, first.side, first.amount, first.price, ?_, ?_⟩
      · exact fun _ => ⟨Order.isRemoved_of_isClosed rfl, same⟩
      · intro resting
        simp [Order.isOpen, Order.isRemoved, Order.isClosed] at resting
    · have further : bs.find? (·.id = id) = some o := by
        simpa [List.find?_cons, first.id, hid] using found
      rw [closeFirst, if_neg hid, closeFirst, if_neg (first.id ▸ hid)]
      exact .cons first (ih further)

theorem latestUnreflected_of_ids (same : later.map Order.id = orders.map Order.id) :
    latestUnreflected orders later = none := by
  have last : later.getLast?.map Order.id = orders.getLast?.map Order.id := by
    rw [← List.getLast?_map, ← List.getLast?_map, same]
  unfold latestUnreflected
  split
  · rfl
  · next latest hl =>
    split
    · simp [last, hl]
    · rfl

theorem latestUnreflected_of_evolves (h : Evolves orders later) :
    latestUnreflected orders later = none :=
  latestUnreflected_of_ids h.ids

theorem remoteOf_of_mem {o o' : Order} (nodup : (later.map Order.id).Nodup) (h : o' ∈ later)
    (id : o'.id = o.id) : remoteOf later o = some o' := by
  induction later with
  | nil => simp at h
  | cons c cs ih =>
    obtain ⟨fresh, nodup⟩ := List.nodup_cons.mp nodup
    obtain rfl | h := List.mem_cons.mp h
    · simp [remoteOf, id]
    · have other : c.id ≠ o.id := by
        intro same
        exact fresh (List.mem_map.mpr ⟨o', h, id.trans same.symm⟩)
      simpa [remoteOf, other] using ih nodup h

/-- A merge with a later list comes to what the later list comes to. -/
theorem merge_of_evolves (now : Timestamp) (h : Evolves orders later)
    (nodup : (later.map Order.id).Nodup) :
    ∃ merged, merge orders later now = .ok merged ∧ Evolves merged later ∧
      Totals.exact merged = Totals.exact later := by
  -- every order is looked up in the whole list, so the induction is over a part of it
  suffices part : ∀ {os os'}, Evolves os os' → (∀ o ∈ os', o ∈ later) →
      ∃ merged, os.mapM (mergeOrder later now) = .ok merged ∧ Evolves merged os' ∧
        Totals.exact merged = Totals.exact os' from part h fun _ ho => ho
  intro os os' h
  induction h with
  | nil => exact fun _ => ⟨[], rfl, .nil, rfl⟩
  | @cons o o' os os' first rest ih =>
    intro mem
    obtain ⟨merged, hm, evolves, totals⟩ := ih fun c hc => mem c (List.mem_cons_of_mem _ hc)
    have found := remoteOf_of_mem nodup (mem o' List.mem_cons_self) first.id
    obtain resting | removed := o.isOpen_or_isRemoved
    · have kept : ¬ o.isRemoved := by simpa [Order.isOpen] using resting
      have taken : mergeOrder later now o = .ok o' := by simp [mergeOrder, kept, found]
      refine ⟨o' :: merged, ?_, .cons (.refl o') evolves, ?_⟩
      · simp [List.mapM_cons, taken, hm, bind, Except.bind, pure, Except.pure]
      · rw [Totals.exact_cons, totals, ← Totals.exact_cons]
    · have kept : mergeOrder later now o = .ok o := by simp [mergeOrder, removed]
      obtain ⟨removed', trade⟩ := first.removed removed
      refine ⟨o :: merged, ?_, .cons first evolves, ?_⟩
      · simp [List.mapM_cons, kept, hm, bind, Except.bind, pure, Except.pure]
      · rw [Totals.exact_cons, totals, Totals.exact_cons o',
          Totals.exact_of_isRemoved removed removed' trade first.side first.amount]

/-- A ledger that knows the orders of an earlier moment reconciles without a failure, as long as
their present state is paid for. -/
theorem reconcile_of_evolves {l : Ledger} {now : Timestamp} {result : Except Failure Report}
    (h : Evolves l.orders later) (nodup : (later.map Order.id).Nodup)
    (credit : 0 ≤ l.initialCredit + (Totals.exact later).freeCredit)
    (inventory : 0 ≤ l.initialInventory + (Totals.exact later).freeInventory)
    (hr : (l.reconcile later now).2 = .ok result) :
    ∃ report merged, result = .ok report ∧ (l.reconcile later now).1 = l.exactOver merged ∧
      Evolves merged later ∧ Totals.exact merged = Totals.exact later := by
  obtain ⟨merged, hm, evolves, totals⟩ := merge_of_evolves now h nodup
  have covered : (l.exactOver merged).isOvercommitted = false := by
    simp only [Totals.freeCredit, Totals.freeInventory] at credit inventory
    simp only [isOvercommitted, exactOver, totals, Bool.or_eq_false_iff, decide_eq_false_iff_not]
    omega
  have commits : l.commits later now := by
    cases hw : l.withOrders merged with
    | error fault => simp [reconcile, latestUnreflected_of_evolves h, hm, hw] at hr
    | ok committed =>
      simp [commits, latestUnreflected_of_evolves h, hm, hw, Except.isOk, Except.toBool]
  obtain ⟨merged', hm', taken, outcome⟩ := reconcile_of_commits commits
  obtain rfl : merged' = merged := Except.ok.inj (hm'.symm.trans hm)
  rw [covered, hr] at outcome
  simp only [Bool.false_eq_true, if_false, Except.ok.injEq] at outcome
  exact ⟨_, merged', outcome, taken, evolves, totals⟩

end Ledger

end TradingLoad
