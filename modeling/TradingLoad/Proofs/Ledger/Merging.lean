import TradingLoad.Proofs.Ledger.Evolution

namespace TradingLoad

section Pairs

variable {α β : Type} {R : α → β → Prop} {xs : List α} {ys : List β} {y : β}

/-- What stands in the one list stands beside something in the other. -/
theorem exists_getElem?_of_forall₂ (pairs : List.Forall₂ R xs ys) {i : Nat}
    (here : ys[i]? = some y) : ∃ x, xs[i]? = some x ∧ R x y := by
  obtain ⟨length, related⟩ := List.forall₂_iff_get.mp pairs
  obtain ⟨within, rfl⟩ := List.getElem?_eq_some_iff.mp here
  have within' : i < xs.length := length ▸ within
  exact ⟨xs.get ⟨i, within'⟩, List.getElem?_eq_getElem within', related i within' within⟩

theorem exists_mem_of_forall₂ (pairs : List.Forall₂ R xs ys) (mem : y ∈ ys) :
    ∃ x ∈ xs, R x y := by
  obtain ⟨i, here⟩ := List.mem_iff_getElem?.mp mem
  obtain ⟨x, here', related⟩ := exists_getElem?_of_forall₂ pairs here
  exact ⟨x, List.mem_of_getElem? here', related⟩

theorem exists_getLast?_of_forall₂ (pairs : List.Forall₂ R xs ys) (last : ys.getLast? = some y) :
    ∃ x, xs.getLast? = some x ∧ R x y := by
  rw [List.getLast?_eq_getElem?] at last ⊢
  rw [pairs.length_eq]
  exact exists_getElem?_of_forall₂ pairs last

end Pairs

namespace Ledger

variable {orders remote merged : List Order} {now : Timestamp}

theorem forall₂_of_merge (h : merge orders remote now = .ok merged) :
    List.Forall₂ (fun o o' => mergeOrder remote now o = .ok o') orders merged := by
  induction orders generalizing merged with
  | nil =>
    obtain rfl : [] = merged := by simpa [merge, pure, Except.pure] using h
    exact .nil
  | cons o os ih =>
    cases ho : mergeOrder remote now o with
    | error failure => simp [merge, ho, bind, Except.bind] at h
    | ok o' =>
      cases hos : os.mapM (mergeOrder remote now) with
      | error failure => simp [merge, ho, hos, bind, Except.bind] at h
      | ok os' =>
        obtain rfl : o' :: os' = merged := by
          simpa [merge, ho, hos, bind, Except.bind, pure, Except.pure] using h
        exact .cons ho (ih hos)

theorem id_of_mergeOrder {o o' : Order} (h : mergeOrder remote now o = .ok o') : o'.id = o.id := by
  unfold mergeOrder at h
  split at h
  · obtain rfl := Except.ok.inj h
    rfl
  · split at h
    · next server side found =>
      obtain rfl := Except.ok.inj h
      simpa [remoteOf] using List.find?_some found
    · cases h
    · obtain rfl := Except.ok.inj h
      rfl

theorem ids_merge (h : merge orders remote now = .ok merged) :
    merged.map Order.id = orders.map Order.id := by
  have pairs := forall₂_of_merge h
  clear h
  induction pairs with
  | nil => rfl
  | cons first rest ih => rw [List.map_cons, List.map_cons, ih, id_of_mergeOrder first]

theorem ids_reconcile (l : Ledger) (remote : List Order) (now : Timestamp) :
    (l.reconcile remote now).1.orders.map Order.id = l.orders.map Order.id := by
  obtain kept | ⟨merged, hm, ledger⟩ := ledger_of_reconcile l remote now
  · rw [kept]
  · rw [ledger]
    exact ids_merge hm

/-- Only a placement adds an identifier. -/
theorem ids_perform (l : Ledger) (op : Operation) :
    (l.perform op).orders.map Order.id = l.orders.map Order.id ++ match op with
      | .place o => [o.id]
      | _ => [] := by
  cases op with
  | place o => exact List.map_append
  | close id at_ => exact (ids_closeFirst id at_ l.orders).trans (List.append_nil _).symm
  | reconcile remote now => exact (ids_reconcile l remote now).trans (List.append_nil _).symm

/-- The number of open orders. -/
def openCount (l : Ledger) : Nat := l.orders.countP Order.isOpen

theorem openCount_recordPlaced_le (l : Ledger) (o : Order) :
    (l.recordPlaced o).openCount ≤ l.openCount + 1 := by
  have last : [o].countP Order.isOpen ≤ 1 := List.countP_le_length
  simp only [openCount, recordPlaced, List.countP_append]
  omega

theorem countP_closeFirst_le (id : Int) (at_ : Timestamp) (orders : List Order) :
    (closeFirst id at_ orders).countP Order.isOpen ≤ orders.countP Order.isOpen := by
  induction orders with
  | nil => exact Nat.le_refl _
  | cons o os ih =>
    rw [closeFirst]
    split
    · have closed : Order.isOpen { o with closedAt := some at_ } = false := by
        simp [Order.isOpen, Order.isRemoved, Order.isClosed]
      rw [List.countP_cons_of_neg (by simp [closed]), List.countP_cons]
      exact Nat.le_add_right _ _
    · rw [List.countP_cons, List.countP_cons]
      omega

/-- What is removed is not opened again. -/
theorem isOpen_of_mergeOrder {o o' : Order} (h : mergeOrder remote now o = .ok o')
    (resting : o'.isOpen) : o.isOpen := by
  unfold mergeOrder at h
  split at h
  · obtain rfl := Except.ok.inj h
    exact resting
  · next unremoved => simpa [Order.isOpen] using unremoved

theorem countP_merge_le (h : merge orders remote now = .ok merged) :
    merged.countP Order.isOpen ≤ orders.countP Order.isOpen := by
  have pairs := forall₂_of_merge h
  clear h
  induction pairs with
  | nil => exact Nat.le_refl _
  | @cons o o' os os' first rest ih =>
    rw [List.countP_cons, List.countP_cons]
    by_cases resting : o'.isOpen
    · rw [if_pos resting, if_pos (isOpen_of_mergeOrder first resting)]
      omega
    · rw [if_neg resting]
      omega

theorem openCount_reconcile_le (l : Ledger) (remote : List Order) (now : Timestamp) :
    (l.reconcile remote now).1.openCount ≤ l.openCount := by
  obtain kept | ⟨merged, hm, ledger⟩ := ledger_of_reconcile l remote now
  · rw [kept]
  · rw [ledger]
    exact countP_merge_le hm

/-- Only a placement adds an open order. -/
theorem openCount_perform_le (l : Ledger) (op : Operation) :
    (l.perform op).openCount ≤ l.openCount + match op with
      | .place _ => 1
      | _ => 0 := by
  cases op with
  | place o => exact openCount_recordPlaced_le l o
  | close id at_ => exact countP_closeFirst_le id at_ l.orders
  | reconcile remote now => exact openCount_reconcile_le l remote now

theorem mergeOrder_of_mem {o : Order} (listed : o.id ∈ remote.map Order.id) :
    ∃ o', mergeOrder remote now o = .ok o' := by
  obtain ⟨server, mem, id⟩ := List.mem_map.mp listed
  have found : (remoteOf remote o).isSome := by
    unfold remoteOf
    exact List.find?_isSome.mpr ⟨server, mem, by simpa using id⟩
  obtain ⟨server', hs⟩ := Option.isSome_iff_exists.mp found
  unfold mergeOrder
  split
  · exact ⟨o, rfl⟩
  · exact ⟨server', by rw [hs]⟩

theorem merge_of_mem (listed : ∀ o ∈ orders, o.id ∈ remote.map Order.id) :
    ∃ merged, merge orders remote now = .ok merged := by
  induction orders with
  | nil => exact ⟨[], rfl⟩
  | cons o os ih =>
    obtain ⟨o', ho⟩ : ∃ o', mergeOrder remote now o = .ok o' :=
      mergeOrder_of_mem (listed o List.mem_cons_self)
    obtain ⟨os', hos⟩ := ih fun c hc => listed c (List.mem_cons_of_mem _ hc)
    refine ⟨o' :: os', ?_⟩
    unfold merge at hos ⊢
    simp [List.mapM_cons, ho, hos, bind, Except.bind, pure, Except.pure]

/-- No order is missed in a list with the identifiers of the ledger's own orders: a reconciliation
ends with a report, with more reserved than held, or with a fault. -/
theorem reconcile_of_ids {l : Ledger} (same : remote.map Order.id = l.orders.map Order.id) :
    TookOver (l.reconcile remote now).2 ∨ ∃ fault, (l.reconcile remote now).2 = .error fault := by
  have seen := latestUnreflected_of_ids same
  obtain ⟨merged, hm⟩ : ∃ merged, merge l.orders remote now = .ok merged := by
    apply merge_of_mem
    intro o mem
    rw [same]
    exact List.mem_map_of_mem mem
  unfold TookOver reconcile
  simp only [seen, hm]
  cases l.withOrders merged with
  | error fault => exact .inr ⟨fault, rfl⟩
  | ok committed =>
    simp only
    split
    · unfold desync
      cases committed.availableCredit with
      | error fault => exact .inr ⟨fault, rfl⟩
      | ok credit =>
        cases committed.availableInventory with
        | error fault => exact .inr ⟨fault, rfl⟩
        | ok inventory => exact .inl (.inr ⟨credit, inventory, rfl⟩)
    · exact .inl (.inl ⟨_, rfl⟩)

end Ledger

end TradingLoad
