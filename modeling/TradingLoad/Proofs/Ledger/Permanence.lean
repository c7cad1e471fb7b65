import TradingLoad.Proofs.Ledger.Exits

namespace TradingLoad

namespace Order

/-- The second order is the first one later on: it has the identifier, and if the first one is
removed, so is the second, and nothing but the moment of closing may differ. -/
structure LivesOn (o o' : Order) : Prop where
  id : o'.id = o.id
  removed : o.isRemoved → o'.isRemoved ∧ o' = { o with closedAt := o'.closedAt }

variable {o o' o'' : Order}

theorem LivesOn.refl (o : Order) : o.LivesOn o := ⟨rfl, fun removed => ⟨removed, rfl⟩⟩

theorem LivesOn.trans (h : o.LivesOn o') (k : o'.LivesOn o'') : o.LivesOn o'' := by
  refine ⟨k.id.trans h.id, ?_⟩
  intro removed
  obtain ⟨removed', same⟩ := h.removed removed
  obtain ⟨removed'', same'⟩ := k.removed removed'
  refine ⟨removed'', ?_⟩
  rw [same', same]

theorem livesOn_closed (o : Order) (at_ : Timestamp) : o.LivesOn { o with closedAt := some at_ } :=
  ⟨rfl, fun _ => ⟨isRemoved_of_isClosed rfl, rfl⟩⟩

end Order

namespace Ledger

variable {orders later last remote merged : List Order} {now : Timestamp} {o o' : Order}

/-- Every order of the first list is in the same place of the second one, later on. Identifiers may
repeat, so that only its place tells which order it is. -/
def LiveOn (orders later : List Order) : Prop :=
  ∀ (i : Nat) (o : Order), orders[i]? = some o → ∃ o', later[i]? = some o' ∧ o.LivesOn o'

namespace LiveOn

theorem refl (orders : List Order) : LiveOn orders orders :=
  fun _ o here => ⟨o, here, .refl o⟩

theorem trans (h : LiveOn orders later) (k : LiveOn later last) : LiveOn orders last := by
  intro i o here
  obtain ⟨o', here', lives⟩ := h i o here
  obtain ⟨o'', here'', lives'⟩ := k i o' here'
  exact ⟨o'', here'', lives.trans lives'⟩

theorem append (orders new : List Order) : LiveOn orders (orders ++ new) := by
  intro i o here
  obtain ⟨within, -⟩ := List.getElem?_eq_some_iff.mp here
  exact ⟨o, (List.getElem?_append_left within).trans here, .refl o⟩

end LiveOn

theorem liveOn_closeFirst (id : Int) (at_ : Timestamp) (orders : List Order) :
    LiveOn orders (closeFirst id at_ orders) := by
  induction orders with
  | nil => exact .refl []
  | cons c cs ih =>
    rw [closeFirst]
    intro i o here
    -- either the first order is closed and the others stay, or the first one stays
    split
    · cases i with
      | zero =>
        obtain rfl := Option.some.inj here
        exact ⟨_, rfl, c.livesOn_closed at_⟩
      | succ i => exact ⟨o, here, .refl o⟩
    · cases i with
      | zero => exact ⟨o, here, .refl o⟩
      | succ i => exact ih i o here

theorem livesOn_of_taken (taken : Taken remote now o o') : o.LivesOn o' := by
  refine ⟨taken.id, ?_⟩
  intro removed
  obtain rfl := taken.unique (.removed removed)
  exact ⟨removed, rfl⟩

theorem liveOn_reconcile (l : Ledger) (remote : List Order) (now : Timestamp) :
    LiveOn l.orders (l.reconcile remote now).1.orders := by
  obtain kept | ⟨merged, merges, ledger⟩ := ledger_of_reconcile l remote now
  · rw [kept]
    exact .refl _
  · rw [ledger]
    intro i o here
    have takens := takens_of_merge merges
    obtain ⟨o', here', taken⟩ := exists_getElem?_of_forall₂ takens.flip here
    exact ⟨o', here', livesOn_of_taken taken⟩

/-- What is removed, a reconciliation does not touch. -/
theorem reconcile_of_isRemoved (l : Ledger) (remote : List Order) (now : Timestamp) {i : Nat}
    (here : l.orders[i]? = some o) (removed : o.isRemoved) :
    (l.reconcile remote now).1.orders[i]? = some o := by
  obtain kept | ⟨merged, merges, ledger⟩ := ledger_of_reconcile l remote now
  · rw [kept]
    exact here
  · rw [ledger]
    have takens := takens_of_merge merges
    obtain ⟨o', here', taken⟩ := exists_getElem?_of_forall₂ takens.flip here
    obtain rfl := taken.unique (.removed removed)
    exact here'

/-- The identifiers of the orders that were placed, the oldest first. -/
def placedIds : List Operation → List Int
  | [] => []
  | .place o :: ops => placedIds ops ++ [o.id]
  | .close _ _ :: ops | .reconcile _ _ :: ops => placedIds ops

theorem ids_after (l : Ledger) (ops : List Operation) :
    (l.after ops).orders.map Order.id = l.orders.map Order.id ++ placedIds ops := by
  induction ops with
  | nil => exact (List.append_nil _).symm
  | cons op ops ih =>
    rw [after, ids_perform, ih, List.append_assoc]
    cases op with
    | place o => rfl
    | close id at_ | reconcile remote now => rw [List.append_nil, placedIds]

theorem liveOn_perform (l : Ledger) (op : Operation) : LiveOn l.orders (l.perform op).orders := by
  cases op with
  | place o => exact .append l.orders [o]
  | close id at_ => exact liveOn_closeFirst id at_ l.orders
  | reconcile remote now => exact liveOn_reconcile l remote now

theorem liveOn_after (l : Ledger) (ops : List Operation) :
    LiveOn l.orders (l.after ops).orders := by
  induction ops with
  | nil => exact .refl _
  | cons op ops ih => exact ih.trans (liveOn_perform (l.after ops) op)

/-- The first order of an identifier remains the first one. -/
theorem LiveOn.find? (h : LiveOn orders later) {id : Int}
    (found : orders.find? (·.id = id) = some o) :
    ∃ o', later.find? (·.id = id) = some o' ∧ o.LivesOn o' := by
  obtain ⟨named, i, within, rfl, first⟩ := List.find?_eq_some_iff_getElem.mp found
  obtain ⟨o', here', lives⟩ := h i _ (List.getElem?_eq_getElem within)
  obtain ⟨within', rfl⟩ := List.getElem?_eq_some_iff.mp here'
  refine ⟨_, List.find?_eq_some_iff_getElem.mpr ⟨?_, i, within', rfl, ?_⟩, lives⟩
  · rw [lives.id]
    exact named
  · intro j before
    obtain ⟨o'', here'', lives''⟩ := h j _ (List.getElem?_eq_getElem (before.trans within))
    obtain ⟨_, rfl⟩ := List.getElem?_eq_some_iff.mp here''
    rw [lives''.id]
    exact first j before

theorem tracks_iff_find? {l : Ledger} {id : Int} : l.tracks id ↔ ∃ o, l.find? id = some o := by
  unfold tracks Ledger.find?
  rw [List.any_eq_true, ← List.find?_isSome, Option.isSome_iff_exists]

/-- What is tracked remains so. -/
theorem tracks_after {l : Ledger} {id : Int} (h : l.tracks id) (ops : List Operation) :
    (l.after ops).tracks id := by
  obtain ⟨o, found⟩ := tracks_iff_find?.mp h
  obtain ⟨o', found', -⟩ := (liveOn_after l ops).find? found
  exact tracks_iff_find?.mpr ⟨o', found'⟩

/-- What is found removed is found removed ever after. -/
theorem isRemoved_find?_after {l : Ledger} {id : Int} (h : (l.find? id).any Order.isRemoved)
    (ops : List Operation) : ((l.after ops).find? id).any Order.isRemoved := by
  obtain ⟨o, found, removed⟩ := (Option.any_eq_true _ _).mp h
  obtain ⟨o', found', lives⟩ := (liveOn_after l ops).find? found
  exact (Option.any_eq_true _ _).mpr ⟨o', found', (lives.removed removed).1⟩

theorem find?_closeFirst {id : Int} (found : orders.find? (·.id = id) = some o) (at_ : Timestamp) :
    (closeFirst id at_ orders).find? (·.id = id) = some { o with closedAt := some at_ } := by
  induction orders with
  | nil => cases found
  | cons c cs ih =>
    by_cases same : c.id = id
    · rw [List.find?_cons_of_pos (by simpa using same)] at found
      obtain rfl := Option.some.inj found
      rw [closeFirst, if_pos same, List.find?_cons_of_pos (by simpa using same)]
    · rw [List.find?_cons_of_neg (by simpa using same)] at found
      rw [closeFirst, if_neg same, List.find?_cons_of_neg (by simpa using same)]
      exact ih found

/-- What has been tracked is found removed once it is closed. -/
theorem isRemoved_find?_markClosed {l : Ledger} {id : Int} (h : l.tracks id) (at_ : Timestamp) :
    ((l.markClosed id at_).find? id).any Order.isRemoved := by
  obtain ⟨o, found⟩ := tracks_iff_find?.mp h
  have closed : (l.markClosed id at_).find? id = some { o with closedAt := some at_ } :=
    find?_closeFirst found at_
  rw [closed]
  exact Order.isRemoved_of_isClosed rfl

/-- Between any two moments of a history, identifiers are only appended, namely those of the orders
placed in between; an order that is removed at the first moment is removed at the second, on the
same side, for the same amount, at the same price and with the same trade or none; a trade is never
lost or replaced; and a reconciliation leaves removed orders as they are. -/
theorem removed_orders_stay_removed (l : Ledger) (earlier later : List Operation) :
    let before := l.after earlier
    let after := l.after (later ++ earlier)
    after.orders.map Order.id = before.orders.map Order.id ++ placedIds later ∧
    (∀ (i : Nat) (o : Order), before.orders[i]? = some o → o.isRemoved →
      ∃ o', after.orders[i]? = some o' ∧ o'.isRemoved ∧ o'.id = o.id ∧ o'.side = o.side ∧
        o'.amount = o.amount ∧ o'.price = o.price ∧ o'.trade = o.trade) ∧
    (∀ (i : Nat) (o : Order) (t : Trade), before.orders[i]? = some o → o.trade = some t →
      ∃ o', after.orders[i]? = some o' ∧ o'.id = o.id ∧ o'.trade = some t) ∧
    ∀ (remote : List Order) (now : Timestamp) (i : Nat) (o : Order),
      before.orders[i]? = some o → o.isRemoved →
        (before.reconcile remote now).1.orders[i]? = some o := by
  intro before after
  have run : after = before.after later := after_append l later earlier
  have lives : LiveOn before.orders after.orders := run ▸ liveOn_after before later
  refine ⟨run ▸ ids_after before later, ?_, ?_, ?_⟩
  · intro i o here removed
    obtain ⟨o', here', id, stays⟩ := lives i o here
    obtain ⟨removed', same⟩ := stays removed
    refine ⟨o', here', removed', id, ?_⟩
    rw [same]
    exact ⟨rfl, rfl, rfl, rfl⟩
  · intro i o t here settled
    obtain ⟨o', here', id, stays⟩ := lives i o here
    obtain ⟨-, same⟩ := stays (Order.isRemoved_of_trade settled)
    refine ⟨o', here', id, ?_⟩
    rw [same]
    exact settled
  · intro remote now i o here removed
    exact reconcile_of_isRemoved before remote now here removed

/-- Four units are sold at 125. That the exchange then shows the order as open again, that it is
closed once more and that a bid comes behind it changes neither its place nor its trade. -/
theorem sale_stays_sold :
    let sell := Order.placed 1 .sell 4 120 .epoch
    let sold := { sell with trade := some ⟨10, 4, 125, .epoch⟩, closedAt := some .epoch }
    let earlier : List Operation := [.reconcile [sold] .epoch, .place sell]
    let later : List Operation :=
      [.reconcile [sell] .epoch, .close 1 .epoch, .place (.placed 2 .buy 1 100 .epoch)]
    let after := (new 1000 10).after (later ++ earlier)
    ((new 1000 10).after earlier).orders[0]? = some sold ∧ sold.isRemoved ∧
      after.orders.map Order.id = [1, 2] ∧
      ∃ o, after.orders[0]? = some o ∧ o.isRemoved ∧ o.trade = some ⟨10, 4, 125, .epoch⟩ := by
  intro sell sold earlier later after
  have here : ((new 1000 10).after earlier).orders[0]? = some sold := by decide
  have removed : sold.isRemoved := rfl
  obtain ⟨ids, stays, -, -⟩ := removed_orders_stay_removed (new 1000 10) earlier later
  obtain ⟨o, here', removed', -, -, -, -, trade⟩ := stays 0 sold here removed
  exact ⟨here, removed, ids.trans (by decide), o, here', removed', trade⟩

end Ledger

end TradingLoad
