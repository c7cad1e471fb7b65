import TradingLoad.Policy.RandomTrader
import TradingLoad.Proofs.Ledger.Sums

namespace TradingLoad

namespace RandomTrader

variable {t t' : RandomTrader} {s : Situation} {d : Decision}

theorem drawAmount_eq (t : RandomTrader) (upper : Int) :
    t.drawAmount upper = (min ((t.source.uniform (max upper 1).toNat).1 : Int) t.unitAmount,
      { t with source := (t.source.uniform (max upper 1).toNat).2 }) := by
  unfold drawAmount
  cases t.source.uniform (max upper 1).toNat
  rfl

@[simp] theorem unitAmount_drawAmount (t : RandomTrader) (upper : Int) :
    (t.drawAmount upper).2.unitAmount = t.unitAmount := by
  rw [drawAmount_eq]

@[simp] theorem referencePrice_drawAmount (t : RandomTrader) (upper : Int) :
    (t.drawAmount upper).2.referencePrice = t.referencePrice := by
  rw [drawAmount_eq]

theorem placeAtRandom_none (t : RandomTrader) (side : Side) (upper price : Int) (motive : Motive) :
    t.placeAtRandom side upper none price motive =
      (.place side (t.drawAmount upper).1 price motive, (t.drawAmount upper).2) := by
  unfold placeAtRandom
  cases t.drawAmount upper
  rfl

theorem placeAtRandom_some (t : RandomTrader) (side : Side) (upper most price : Int)
    (motive : Motive) : t.placeAtRandom side upper (some most) price motive =
      (.place side (min (t.drawAmount upper).1 most) price motive, (t.drawAmount upper).2) := by
  unfold placeAtRandom
  cases t.drawAmount upper
  rfl

/-- A random amount is at least 1, and no more than the unit and the number it was drawn up to. -/
theorem drawAmount_mem (unit : 0 < t.unitAmount) (upper : Int) :
    0 < (t.drawAmount upper).1 ∧ (t.drawAmount upper).1 ≤ t.unitAmount ∧
      (t.drawAmount upper).1 ≤ max upper 1 := by
  have nonempty : 0 < (max upper 1).toNat := by omega
  have drawn := t.source.uniform_mem nonempty
  rw [drawAmount_eq]
  simp only
  omega

theorem midpoint_eq_ok_iff {a b c : Int} :
    midpoint a b = .ok c ↔ InInt64 (a + b) ∧ (a + b).tdiv 2 = c := by
  unfold midpoint
  constructor
  · intro h
    obtain ⟨sum, hs, h⟩ := Checked.bind_eq_ok_iff.mp h
    obtain ⟨fits, rfl⟩ := Checked.add_eq_ok_iff.mp hs
    exact ⟨fits, Except.ok.inj h⟩
  · rintro ⟨fits, rfl⟩
    exact Checked.bind_eq_ok_iff.mpr ⟨_, Checked.add_eq_ok_iff.mpr ⟨fits, rfl⟩, rfl⟩

/-- Rounding towards zero does not take the mean of two prices out of their range. -/
theorem midpoint_between {a b c : Int} (h : midpoint a b = .ok c) (ha : 0 ≤ a) (hb : 0 ≤ b) :
    min a b ≤ c ∧ c ≤ max a b := by
  obtain ⟨-, rfl⟩ := midpoint_eq_ok_iff.mp h
  have nonneg : 0 ≤ a + b := by omega
  have exact_ : (a + b).tdiv 2 = (a + b) / 2 := Int.tdiv_eq_ediv_of_nonneg nonneg
  omega

/-- Halfway from the reference price to a price of the book, or the reference price itself where the
book does not show one. -/
inductive Concedes (t : RandomTrader) (shown : Int) : Int → Prop where
  | unknown (none : shown = 0) : Concedes t shown t.referencePrice
  | halfway {price : Int} (some_ : shown ≠ 0)
      (middle : midpoint shown t.referencePrice = .ok price) : Concedes t shown price

/-- What a trader decides, and what becomes of it. -/
inductive Rung (t : RandomTrader) (s : Situation) : Decision → RandomTrader → Prop where
  | cancel {o : Order} (full : s.orderCap ≤ s.openCount)
      (worst : s.leastCompetitive = .ok (some o)) : Rung t s (.cancel o.id) t
  | initialSell (idle : s.openCount = 0) (enough : t.unitAmount < s.availableInventory) :
      Rung t s (.place .sell t.unitAmount t.referencePrice .initialSell) t
  | initialBuy (idle : s.openCount = 0) :
      Rung t s (.place .buy t.unitAmount t.referencePrice .initialBuy) t
  | askBelowReference (shown : 0 < s.lowestSellPrice) (below : s.lowestSellPrice < t.referencePrice)
      (paid : s.lowestSellPrice ≤ s.availableCredit) :
      Rung t s
        (.place .buy (t.drawAmount (s.availableCredit.tdiv s.lowestSellPrice)).1 s.lowestSellPrice
          .askBelowReference)
        (t.drawAmount (s.availableCredit.tdiv s.lowestSellPrice)).2
  | bidAboveReference (shown : 0 < s.highestBuyPrice) (above : t.referencePrice < s.highestBuyPrice)
      (held : 0 < s.availableInventory) :
      Rung t s
        (.place .sell (t.drawAmount s.availableInventory).1 s.highestBuyPrice .bidAboveReference)
        (t.drawAmount s.availableInventory).2
  | concedeOnSell {price : Int} (enough : t.unitAmount < s.availableInventory)
      (concedes : t.Concedes s.lowestSellPrice price) :
      Rung t s (.place .sell (t.drawAmount t.unitAmount).1 price .concedeOnSell)
        (t.drawAmount t.unitAmount).2
  | concedeOnBuy {price : Int} (positive : 0 < price)
      (affordable : 0 < s.availableCredit.tdiv price)
      (concedes : t.Concedes s.highestBuyPrice price) :
      Rung t s
        (.place .buy (min (t.drawAmount t.unitAmount).1 (s.availableCredit.tdiv price)) price
          .concedeOnBuy)
        (t.drawAmount t.unitAmount).2
  | reprice {price : Int} (traded : 0 < s.latestTradePrice)
      (middle : midpoint s.latestTradePrice t.referencePrice = .ok price) :
      Rung t s (.reprice t.referencePrice price) { t with referencePrice := price }
  | hold (untraded : s.latestTradePrice ≤ 0) : Rung t s .hold t

theorem rung_of_revise (h : t.revise s = .ok (d, t')) : t.Rung s d t' := by
  unfold revise at h
  split at h
  · next traded =>
    obtain ⟨price, middle, h⟩ := Checked.bind_eq_ok_iff.mp h
    obtain ⟨rfl, rfl⟩ := Prod.mk.inj (Except.ok.inj h)
    exact .reprice traded middle
  · next untraded =>
    obtain ⟨rfl, rfl⟩ := Prod.mk.inj (Except.ok.inj h)
    exact .hold (by omega)

theorem rung_of_concedeOnBuy (h : t.concedeOnBuy s = .ok (d, t')) : t.Rung s d t' := by
  unfold concedeOnBuy at h
  obtain ⟨middle, hm, h⟩ := Checked.bind_eq_ok_iff.mp h
  have concedes :
      t.Concedes s.highestBuyPrice
        (if s.highestBuyPrice = 0 then t.referencePrice else middle) := by
    split
    · next none => exact .unknown none
    · next shown => exact .halfway shown hm
  generalize (if s.highestBuyPrice = 0 then t.referencePrice else middle) = price at h concedes
  by_cases positive : 0 < price
  · simp only [positive, if_true] at h
    split at h
    · next enough =>
      rw [placeAtRandom_some] at h
      obtain ⟨rfl, rfl⟩ := Prod.mk.inj (Except.ok.inj h)
      exact .concedeOnBuy positive enough.2 concedes
    · exact rung_of_revise h
  · -- at a price that is not above zero no amount counts as affordable
    simp only [positive, if_false, Int.lt_irrefl, and_false] at h
    exact rung_of_revise h

theorem rung_of_concedeOnSell (enough : t.unitAmount < s.availableInventory)
    (h : t.concedeOnSell s = .ok (d, t')) : t.Rung s d t' := by
  unfold concedeOnSell at h
  split at h
  · next none =>
    obtain ⟨price, hp, h⟩ := Checked.bind_eq_ok_iff.mp h
    obtain rfl := Except.ok.inj hp
    simp only [placeAtRandom_none] at h
    obtain ⟨rfl, rfl⟩ := Prod.mk.inj (Except.ok.inj h)
    exact .concedeOnSell enough (.unknown none)
  · next shown =>
    obtain ⟨price, middle, h⟩ := Checked.bind_eq_ok_iff.mp h
    simp only [placeAtRandom_none] at h
    obtain ⟨rfl, rfl⟩ := Prod.mk.inj (Except.ok.inj h)
    exact .concedeOnSell enough (.halfway shown middle)

theorem rung_of_decideWithOrders (h : t.decideWithOrders s = .ok (d, t')) : t.Rung s d t' := by
  unfold decideWithOrders at h
  split at h
  · next cheap =>
    rw [placeAtRandom_none] at h
    obtain ⟨rfl, rfl⟩ := Prod.mk.inj (Except.ok.inj h)
    exact .askBelowReference cheap.1 cheap.2.1 cheap.2.2
  · split at h
    · next dear =>
      rw [placeAtRandom_none] at h
      obtain ⟨rfl, rfl⟩ := Prod.mk.inj (Except.ok.inj h)
      exact .bidAboveReference dear.1 dear.2.1 dear.2.2
    · split at h
      · next enough => exact rung_of_concedeOnSell enough h
      · exact rung_of_concedeOnBuy h

theorem rung_of_decideBelowCap (h : t.decideBelowCap s = .ok (d, t')) : t.Rung s d t' := by
  unfold decideBelowCap at h
  split at h
  · next idle =>
    split at h
    · next enough =>
      obtain ⟨rfl, rfl⟩ := Prod.mk.inj (Except.ok.inj h)
      exact .initialSell idle enough
    · obtain ⟨rfl, rfl⟩ := Prod.mk.inj (Except.ok.inj h)
      exact .initialBuy idle
  · exact rung_of_decideWithOrders h

theorem rung_of_decide (h : t.decide s = .ok (d, t')) : t.Rung s d t' := by
  unfold decide at h
  split at h
  · next full =>
    obtain ⟨worst, hw, h⟩ := Checked.bind_eq_ok_iff.mp h
    cases worst with
    | some o =>
      obtain ⟨rfl, rfl⟩ := Prod.mk.inj (Except.ok.inj h)
      exact .cancel full hw
    | none => exact rung_of_decideBelowCap h
  · exact rung_of_decideBelowCap h

/-- A look at a situation: the trader before and after it, and what it decided. -/
structure Look where
  before : RandomTrader
  situation : Situation
  decision : Decision
  after : RandomTrader

/-- The looks of a trader that is shown one situation after another. -/
def looks (t : RandomTrader) : List Situation → Checked (List Look)
  | [] => .ok []
  | s :: ss => do
    let (decision, after) ← t.decide s
    (after.looks ss).map (⟨t, s, decision, after⟩ :: ·)

theorem looks_cons (decides : t.decide s = .ok (d, t')) (ss : List Situation) :
    t.looks (s :: ss) = (t'.looks ss).map (⟨t, s, d, t'⟩ :: ·) := by
  rw [looks, decides]
  rfl

/-- The trader that looks leave behind. -/
def afterLooks (t : RandomTrader) : List Look → RandomTrader
  | [] => t
  | look :: looks => look.after.afterLooks looks

theorem looks_cons_eq_ok {ss : List Situation} {looks : List Look}
    (run : t.looks (s :: ss) = .ok looks) :
    ∃ d t' rest, t.decide s = .ok (d, t') ∧ t'.looks ss = .ok rest ∧
      looks = ⟨t, s, d, t'⟩ :: rest := by
  obtain ⟨⟨d, t'⟩, decides, run⟩ := Checked.bind_eq_ok_iff.mp run
  cases more : t'.looks ss with
  | error fault => simp [more, Except.map] at run
  | ok rest =>
    simp only [more, Except.map, Except.ok.injEq] at run
    exact ⟨d, t', rest, decides, more, run.symm⟩

/-- Looks that are cut in two come from situations that are cut in two. -/
theorem looks_eq_ok_append {ss : List Situation} {earlier later : List Look}
    (run : t.looks ss = .ok (earlier ++ later)) :
    ∃ first last, ss = first ++ last ∧ t.looks first = .ok earlier ∧
      (t.afterLooks earlier).looks last = .ok later := by
  induction earlier generalizing t ss with
  | nil => exact ⟨[], ss, rfl, rfl, run⟩
  | cons look earlier ih =>
    cases ss with
    | nil => cases run
    | cons s ss =>
      obtain ⟨d, t', rest, decides, run, parts⟩ := looks_cons_eq_ok run
      obtain ⟨rfl, rfl⟩ := List.cons.inj parts
      obtain ⟨first, last, rfl, run, run'⟩ := ih run
      refine ⟨s :: first, last, rfl, ?_, run'⟩
      rw [looks_cons decides, run]
      rfl

end RandomTrader

end TradingLoad
