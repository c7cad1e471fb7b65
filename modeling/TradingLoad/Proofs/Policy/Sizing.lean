import TradingLoad.Proofs.Policy.Ladder
import TradingLoad.Proofs.Run.Tasks

namespace TradingLoad

/-- An order is for something, a buy costs something, and a sell is for no more units than given. -/
def Task.Fits (units : Int) : Task → Prop
  | .addOrder .buy amount price => 0 < amount ∧ 0 < price
  | .addOrder .sell amount _ => 0 < amount ∧ amount ≤ units
  | _ => True

/-- What fits still fits when more units are free. -/
theorem Task.Fits.mono {task : Task} {units more : Int} (h : task.Fits units)
    (le : units ≤ more) : task.Fits more := by
  cases task with
  | addOrder side amount price =>
    cases side with
    | buy => exact h
    | sell => exact ⟨h.1, Int.le_trans h.2 le⟩
  | _ => trivial

/-- The order that is decided, if it is one, fits. -/
def Decision.Fits (units : Int) (d : Decision) : Prop :=
  ∀ task ∈ Investor.taskOf d, task.Fits units

theorem Decision.Fits.followUps {units : Int} {d : Decision} (h : d.Fits units) :
    ∀ task ∈ Investor.followUps d, task.Fits units := by
  unfold Investor.followUps
  unfold Decision.Fits at h
  split
  · next order hd =>
    intro task ht
    obtain rfl | ht := List.mem_cons.mp ht
    · exact h task hd
    · obtain rfl := List.mem_singleton.mp ht
      trivial
  · simp

namespace RandomTrader

/-- A trader with a unit and a price to go by. -/
structure Sound (t : RandomTrader) : Prop where
  unitAmount : 0 < t.unitAmount
  referencePrice : 0 < t.referencePrice

variable {t t' : RandomTrader} {s : Situation} {d : Decision} {side : Side} {amount price : Int}
  {motive : Motive}

/-- What is bought in whole units of what it costs is paid for. -/
theorem mul_le_of_le_tdiv {amount price credit : Int} (positive : 0 < price)
    (affordable : 0 < credit.tdiv price) (h : amount ≤ credit.tdiv price) :
    amount * price ≤ credit := by
  have nonneg : 0 ≤ credit := by
    by_contra negative
    have owed : 0 ≤ (-credit).tdiv price := Int.tdiv_nonneg (by omega) (Int.le_of_lt positive)
    rw [Int.neg_tdiv] at owed
    omega
  rwa [Int.tdiv_eq_ediv_of_nonneg nonneg, Int.le_ediv_iff_mul_le positive] at h

theorem tdiv_pos_of_le {price credit : Int} (positive : 0 < price) (h : price ≤ credit) :
    0 < credit.tdiv price := by
  have one : 1 ≤ credit / price := (Int.le_ediv_iff_mul_le positive).mpr (by omega)
  rw [Int.tdiv_eq_ediv_of_nonneg (by omega)]
  omega

/-- An order is for a positive amount up to a unit, and within what is free; only the first buy is
not measured against the credit. -/
theorem Rung.within_means (ht : t.Sound) (h : t.Rung s (.place side amount price motive) t') :
    (0 < amount ∧ amount ≤ t.unitAmount) ∧ (side = .sell → amount ≤ s.availableInventory) ∧
      (side = .buy → 0 < price ∧ (0 < s.openCount → amount * price ≤ s.availableCredit)) := by
  have unit := ht.unitAmount
  have drawn := drawAmount_mem unit
  cases h with
  | initialSell idle enough => exact ⟨⟨unit, Int.le_refl _⟩, fun _ => Int.le_of_lt enough, nofun⟩
  | initialBuy idle =>
    refine ⟨⟨unit, Int.le_refl _⟩, nofun, fun _ => ⟨ht.referencePrice, ?_⟩⟩
    intro busy
    omega
  | askBelowReference shown below paid =>
    obtain ⟨pos, upToUnit, upTo⟩ := drawn (s.availableCredit.tdiv s.lowestSellPrice)
    have affordable := tdiv_pos_of_le shown paid
    refine ⟨⟨pos, upToUnit⟩, nofun, fun _ => ⟨shown, fun _ => ?_⟩⟩
    exact mul_le_of_le_tdiv shown affordable (by omega)
  | bidAboveReference shown above held =>
    obtain ⟨pos, upToUnit, upTo⟩ := drawn s.availableInventory
    exact ⟨⟨pos, upToUnit⟩, fun _ => by omega, nofun⟩
  | concedeOnSell enough concedes =>
    obtain ⟨pos, upToUnit, -⟩ := drawn t.unitAmount
    exact ⟨⟨pos, upToUnit⟩, fun _ => by omega, nofun⟩
  | concedeOnBuy positive affordable concedes =>
    obtain ⟨pos, upToUnit, -⟩ := drawn t.unitAmount
    refine ⟨⟨by omega, by omega⟩, nofun, fun _ => ⟨positive, fun _ => ?_⟩⟩
    exact mul_le_of_le_tdiv positive affordable (Int.min_le_right _ _)

theorem Rung.sound (ht : t.Sound) (h : t.Rung s d t') : t'.Sound := by
  cases h with
  | reprice traded middle =>
    have positive := ht.referencePrice
    obtain ⟨low, -⟩ := midpoint_between middle (Int.le_of_lt traded) (Int.le_of_lt positive)
    have least : 0 < min s.latestTradePrice t.referencePrice := Int.lt_min.mpr ⟨traded, positive⟩
    exact ⟨ht.unitAmount, Int.lt_of_lt_of_le least low⟩
  | _ => exact ⟨by simpa using ht.unitAmount, by simpa using ht.referencePrice⟩

/-- Whatever a trader decides fits the units that are free, and leaves the trader sound. -/
theorem decide_fits (ht : t.Sound) (h : t.decide s = .ok (d, t')) :
    t'.Sound ∧ d.Fits s.availableInventory := by
  have rung := rung_of_decide h
  refine ⟨rung.sound ht, ?_⟩
  cases d with
  | place side amount price motive =>
    obtain ⟨⟨pos, -⟩, sell, buy⟩ := rung.within_means ht
    rintro task ⟨rfl⟩
    cases side with
    | buy => exact ⟨pos, (buy rfl).1⟩
    | sell => exact ⟨pos, sell rfl⟩
  | cancel orderId =>
    rintro task ⟨rfl⟩
    trivial
  | hold | reprice => rintro task ⟨⟩

/-- An order is for at least one unit and at most as many as the trader deals in; a sell is for no
more than the units that are free; and a buy that is decided beside an open order is at a price of
at least 1 and costs no more than the credit that is free. -/
theorem placement_within_means (ht : t.Sound)
    (h : t.decide s = .ok (.place side amount price motive, t')) :
    (1 ≤ amount ∧ amount ≤ t.unitAmount) ∧
    (side = .sell → amount ≤ s.availableInventory) ∧
    (side = .buy → 1 ≤ s.openCount → 1 ≤ price ∧ amount * price ≤ s.availableCredit) := by
  obtain ⟨size, sell, buy⟩ := (rung_of_decide h).within_means ht
  refine ⟨size, sell, ?_⟩
  intro bought busy
  obtain ⟨positive, paid⟩ := buy bought
  exact ⟨positive, paid busy⟩

/-- With 250 of credit left beside an open buy, two units are bid for at 100. -/
theorem two_units_within_credit :
    let t := ofSeed 5 100 2
    let s : Situation :=
      { orders := [.placed 1 .buy 5 100 .epoch]
        availableCredit := 250
        availableInventory := 0
        lowestSellPrice := 0
        highestBuyPrice := 0
        latestTradePrice := 0
        orderCap := 5 }
    let t' := { t with source := { t.source with position := 2 } }
    t.Sound ∧ t.decide s = .ok (.place .buy 2 100 .concedeOnBuy, t') ∧ 1 ≤ s.openCount ∧
      (2 : Int) ≤ t.unitAmount ∧ 2 * 100 ≤ s.availableCredit := by
  intro t s t'
  have sound : t.Sound := ⟨by decide, by decide⟩
  have decides : t.decide s = .ok (.place .buy 2 100 .concedeOnBuy, t') := by decide +kernel
  have busy : 1 ≤ s.openCount := by decide
  obtain ⟨⟨-, upToUnit⟩, -, buy⟩ := placement_within_means sound decides
  exact ⟨sound, decides, busy, upToUnit, (buy rfl busy).2⟩

end RandomTrader

end TradingLoad
