import TradingLoad.Proofs.Policy.Ladder

namespace TradingLoad

namespace Situation

variable {s : Situation} {o : Order}

/-- How far an order is from the best price on the other side of the book, in unbounded numbers. -/
def margin (s : Situation) (o : Order) : Int :=
  match o.side with
  | .sell => o.price - s.highestBuyPrice
  | .buy => s.lowestSellPrice - o.price

/-- The order is open, and no open order has a greater margin. -/
def isFarthest (s : Situation) (o : Order) : Bool :=
  o.isOpen && s.openOrders.all fun c => s.margin c ≤ s.margin o

theorem opposingMargin_of_fits (fits : InInt64 (s.margin o)) :
    s.opposingMargin o = .ok (s.margin o) := by
  unfold opposingMargin margin at *
  cases side : o.side with
  | buy | sell =>
    rw [side] at fits
    exact Checked.sub_eq_ok_iff.mpr ⟨fits, rfl⟩

/-- Among orders there is always a least competitive one. -/
theorem leastCompetitiveFrom_eq_ok {best worst : Option (Order × Int)} {orders : List Order}
    (h : s.leastCompetitiveFrom best orders = .ok worst) (some_ : best.isSome ∨ orders ≠ []) :
    worst.isSome := by
  induction orders generalizing best with
  | nil =>
    obtain rfl : best = worst := Except.ok.inj h
    exact some_.resolve_right (fun none => none rfl)
  | cons o os ih =>
    unfold leastCompetitiveFrom at h
    obtain ⟨margin, -, h⟩ := Checked.bind_eq_ok_iff.mp h
    cases best with
    | none => exact ih h (.inl rfl)
    | some b =>
      simp only at h
      split at h
      · exact ih h (.inl rfl)
      · exact ih h (.inl rfl)

theorem leastCompetitive_ne_none (resting : 0 < s.openCount) : s.leastCompetitive ≠ .ok none := by
  intro h
  obtain ⟨worst, hw, h⟩ := Checked.bind_eq_ok_iff.mp h
  have orders : s.openOrders ≠ [] := List.ne_nil_of_length_pos resting
  have found := leastCompetitiveFrom_eq_ok hw (.inr orders)
  obtain ⟨o, rfl⟩ := Option.isSome_iff_exists.mp found
  cases Except.ok.inj h

/-- The margin is greater than those before it, and no less than those behind it. -/
def Leads (s : Situation) (orders : List Order) (o : Order) : Prop :=
  ∃ before behind, orders = before ++ o :: behind ∧
    (∀ c ∈ before, s.margin c < s.margin o) ∧ ∀ c ∈ behind, s.margin c ≤ s.margin o

theorem Leads.margin_le {orders : List Order} (h : s.Leads orders o) :
    ∀ c ∈ orders, s.margin c ≤ s.margin o := by
  obtain ⟨before, behind, rfl, less, atMost⟩ := h
  intro c mem
  obtain earlier | later := List.mem_append.mp mem
  · exact Int.le_of_lt (less c earlier)
  · obtain rfl | later := List.mem_cons.mp later
    · exact Int.le_refl _
    · exact atMost c later

/-- One that leads is passed by one behind it, and by none that is no better. -/
theorem Leads.skip {b c : Order} {orders : List Order} (le : s.margin c ≤ s.margin b)
    (h : s.Leads (b :: orders) o) : s.Leads (b :: c :: orders) o := by
  obtain ⟨before, behind, parts, less, atMost⟩ := h
  cases before with
  | nil =>
    obtain ⟨rfl, rfl⟩ := List.cons.inj parts
    refine ⟨[], c :: orders, rfl, by simp, ?_⟩
    simpa using ⟨le, atMost⟩
  | cons first before =>
    obtain ⟨rfl, rfl⟩ := List.cons.inj parts
    refine ⟨b :: c :: before, behind, rfl, ?_, atMost⟩
    have ahead := less b List.mem_cons_self
    intro d mem
    obtain rfl | rfl | later := by simpa using mem
    · exact ahead
    · omega
    · exact less d (List.mem_cons_of_mem _ later)

theorem Leads.pass {b c : Order} {orders : List Order} (lt : s.margin b < s.margin c)
    (h : s.Leads (c :: orders) o) : s.Leads (b :: c :: orders) o := by
  have ahead := h.margin_le c List.mem_cons_self
  obtain ⟨before, behind, parts, less, atMost⟩ := h
  refine ⟨b :: before, behind, congrArg (b :: ·) parts, ?_, atMost⟩
  intro d mem
  obtain rfl | later := List.mem_cons.mp mem
  · omega
  · exact less d later

theorem leastCompetitiveFrom_of_fits {orders : List Order}
    (fits : ∀ c ∈ orders, InInt64 (s.margin c)) (b : Order) :
    ∃ o, s.leastCompetitiveFrom (some (b, s.margin b)) orders = .ok (some (o, s.margin o)) ∧
      s.Leads (b :: orders) o := by
  induction orders generalizing b with
  | nil => exact ⟨b, rfl, [], [], rfl, by simp, by simp⟩
  | cons c orders ih =>
    have known := opposingMargin_of_fits (fits c List.mem_cons_self)
    have later := ih fun d mem => fits d (List.mem_cons_of_mem _ mem)
    unfold leastCompetitiveFrom
    rw [known]
    by_cases le : s.margin c ≤ s.margin b
    · obtain ⟨o, found, leads⟩ := later b
      exact ⟨o, by simpa [bind, Except.bind, le] using found, leads.skip le⟩
    · obtain ⟨o, found, leads⟩ := later c
      exact ⟨o, by simpa [bind, Except.bind, le] using found, leads.pass (by omega)⟩

theorem find?_isFarthest_of_leads (h : s.Leads s.openOrders o) :
    s.orders.find? s.isFarthest = some o := by
  have open_ : s.orders.find? s.isFarthest =
      s.openOrders.find? fun o => s.openOrders.all fun c => s.margin c ≤ s.margin o := by
    rw [openOrders, List.find?_filter]
    congr 1
    funext o
    rw [isFarthest, Bool.decide_and, Bool.decide_eq_true, Bool.decide_eq_true, openOrders]
  have greatest := h.margin_le
  obtain ⟨before, behind, parts, less, -⟩ := h
  rw [open_, List.find?_eq_some_iff_append]
  refine ⟨by simpa using greatest, before, behind, parts, ?_⟩
  intro c mem
  have lt := less c mem
  have here : o ∈ s.openOrders := by simp [parts]
  simp only [Bool.not_eq_true', List.all_eq_false]
  exact ⟨o, here, by simpa using lt⟩

/-- The search finds the first of the farthest orders, if there is any open order. -/
theorem leastCompetitive_eq (fits : ∀ o ∈ s.openOrders, InInt64 (s.margin o)) :
    s.leastCompetitive = .ok (s.orders.find? s.isFarthest) := by
  unfold leastCompetitive
  cases orders : s.openOrders with
  | nil =>
    have none : s.orders.find? s.isFarthest = none := by
      rw [List.find?_eq_none]
      intro o mem far
      have resting : o ∈ s.openOrders :=
        List.mem_filter.mpr ⟨mem, (Bool.and_eq_true_iff.mp far).1⟩
      simp [orders] at resting
    rw [none]
    rfl
  | cons b rest =>
    rw [orders] at fits
    obtain ⟨o, found, leads⟩ :=
      leastCompetitiveFrom_of_fits (fun c mem => fits c (List.mem_cons_of_mem _ mem)) b
    have known := opposingMargin_of_fits (fits b List.mem_cons_self)
    rw [find?_isFarthest_of_leads (orders ▸ leads)]
    simp [leastCompetitiveFrom, known, found, bind, Except.bind, pure, Except.pure]

end Situation

namespace RandomTrader

variable {t t' : RandomTrader} {s : Situation}

theorem farthest_of_cancel (fits : ∀ o ∈ s.openOrders, InInt64 (s.margin o)) {id : Int}
    (h : t.decide s = .ok (.cancel id, t')) :
    s.orderCap ≤ s.openCount ∧ t' = t ∧ ∃ o, s.orders.find? s.isFarthest = some o ∧ o.id = id := by
  cases rung_of_decide h with
  | @cancel o full worst =>
    rw [Situation.leastCompetitive_eq fits] at worst
    exact ⟨full, rfl, o, Except.ok.inj worst, rfl⟩

theorem cancel_of_full (fits : ∀ o ∈ s.openOrders, InInt64 (s.margin o))
    (full : s.orderCap ≤ s.openCount) (resting : 1 ≤ s.openCount) :
    ∃ o : Order, t.decide s = .ok (.cancel o.id, t) := by
  have search := Situation.leastCompetitive_eq fits
  cases found : s.orders.find? s.isFarthest with
  | none =>
    rw [found] at search
    exact absurd search (Situation.leastCompetitive_ne_none resting)
  | some o =>
    rw [found] at search
    refine ⟨o, ?_⟩
    unfold decide
    rw [if_pos full, search]
    rfl

/-- An order is taken back exactly if there are open orders, and as many of them as allowed. It is
the first one of those with the greatest margin of all open orders, and the trader stays as it is.
-/
theorem cancels_farthest_iff_full (fits : ∀ o ∈ s.orders, o.isOpen → InInt64 (s.margin o)) :
    ((∃ id t', t.decide s = .ok (.cancel id, t')) ↔ s.orderCap ≤ s.openCount ∧ 1 ≤ s.openCount) ∧
    ∀ id t', t.decide s = .ok (.cancel id, t') →
      t' = t ∧ ∃ o, s.orders.find? s.isFarthest = some o ∧ o.id = id := by
  have fitsOpen : ∀ o ∈ s.openOrders, InInt64 (s.margin o) := by
    intro o mem
    obtain ⟨known, resting⟩ := List.mem_filter.mp mem
    exact fits o known resting
  refine ⟨⟨?_, ?_⟩, ?_⟩
  · rintro ⟨id, t', h⟩
    obtain ⟨full, -, o, found, -⟩ := farthest_of_cancel fitsOpen h
    refine ⟨full, List.length_pos_of_mem (a := o) ?_⟩
    have far : s.isFarthest o := List.find?_some found
    exact List.mem_filter.mpr ⟨List.mem_of_find?_eq_some found, (Bool.and_eq_true_iff.mp far).1⟩
  · rintro ⟨full, resting⟩
    obtain ⟨o, h⟩ := cancel_of_full (t := t) fitsOpen full resting
    exact ⟨o.id, t, h⟩
  · intro id t' h
    exact (farthest_of_cancel fitsOpen h).2

/-- With five orders open and a closed one before them, margins 15, 15, 35, 35 and 35: the first of
the three is taken back. -/
theorem third_of_five_cancelled :
    let gone := { Order.placed 6 .sell 1 900 .epoch with closedAt := some .epoch }
    let s : Situation :=
      { orders := [gone, .placed 1 .sell 1 110 .epoch, .placed 2 .buy 1 90 .epoch,
          .placed 3 .sell 1 130 .epoch, .placed 4 .buy 1 70 .epoch, .placed 5 .sell 1 130 .epoch]
        availableCredit := 10000
        availableInventory := 10
        lowestSellPrice := 105
        highestBuyPrice := 95
        latestTradePrice := 0
        orderCap := 5 }
    (∀ o ∈ s.orders, o.isOpen → InInt64 (s.margin o)) ∧
      s.openCount = 5 ∧ (s.orders.find? s.isFarthest).map Order.id = some 3 ∧
      ∀ t : RandomTrader, ∃ id t', t.decide s = .ok (.cancel id, t') ∧ t' = t ∧ id = 3 := by
  intro gone s
  have fits : ∀ o ∈ s.orders, o.isOpen → InInt64 (s.margin o) := by decide
  have farthest : (s.orders.find? s.isFarthest).map Order.id = some 3 := by decide
  refine ⟨fits, by decide, farthest, ?_⟩
  intro t
  obtain ⟨full, picks⟩ := cancels_farthest_iff_full (t := t) fits
  obtain ⟨id, t', h⟩ := full.mpr (by decide)
  obtain ⟨same, o, found, rfl⟩ := picks id t' h
  rw [found] at farthest
  exact ⟨o.id, t', h, same, Option.some.inj farthest⟩

end RandomTrader

end TradingLoad
