import TradingLoad.Proofs.Policy.Cancelling

namespace TradingLoad

/-- A price of which the sum and the difference of any two are in range. -/
def IsModest (price : Int) : Prop := 0 ≤ price ∧ price < 0x4000000000000000

instance (price : Int) : Decidable (IsModest price) := by
  unfold IsModest
  infer_instance

/-- The price lies between the least and the greatest of some prices. -/
def Spans (prices : List Int) (price : Int) : Prop :=
  (∃ low ∈ prices, low ≤ price) ∧ ∃ high ∈ prices, price ≤ high

namespace Spans

variable {prices more : List Int} {a b price : Int}

theorem of_mem (mem : price ∈ prices) : Spans prices price :=
  ⟨⟨price, mem, Int.le_refl _⟩, price, mem, Int.le_refl _⟩

theorem append (h : Spans prices price) (more : List Int) : Spans (prices ++ more) price := by
  obtain ⟨⟨low, memLow, le⟩, high, memHigh, ge⟩ := h
  exact ⟨⟨low, List.mem_append_left _ memLow, le⟩, high, List.mem_append_left _ memHigh, ge⟩

/-- What lies between two prices of the span lies in the span. -/
theorem between (ha : Spans prices a) (hb : Spans prices b) (low : min a b ≤ price)
    (high : price ≤ max a b) : Spans prices price := by
  obtain ⟨⟨lowA, memLowA, leA⟩, highA, memHighA, geA⟩ := ha
  obtain ⟨⟨lowB, memLowB, leB⟩, highB, memHighB, geB⟩ := hb
  constructor
  · by_cases le : a ≤ b
    · exact ⟨lowA, memLowA, by omega⟩
    · exact ⟨lowB, memLowB, by omega⟩
  · by_cases le : a ≤ b
    · exact ⟨highB, memHighB, by omega⟩
    · exact ⟨highA, memHighA, by omega⟩

theorem pos (h : Spans prices price) (positive : ∀ p ∈ prices, 0 < p) : 0 < price := by
  obtain ⟨⟨low, mem, le⟩, -⟩ := h
  exact Int.lt_of_lt_of_le (positive low mem) le

theorem modest (h : Spans prices price) (modest : ∀ p ∈ prices, IsModest p) : IsModest price := by
  obtain ⟨⟨low, memLow, le⟩, high, memHigh, ge⟩ := h
  have least := (modest low memLow).1
  have most := (modest high memHigh).2
  exact ⟨by omega, by omega⟩

end Spans

namespace Situation

variable {s : Situation}

/-- The prices of the book and of the latest trade that are known. -/
def knownPrices (s : Situation) : List Int :=
  [s.lowestSellPrice, s.highestBuyPrice, s.latestTradePrice].filter (0 < ·)

/-- Every price that the situation shows is modest. -/
structure Modest (s : Situation) : Prop where
  ask : IsModest s.lowestSellPrice
  bid : IsModest s.highestBuyPrice
  latest : IsModest s.latestTradePrice
  orders : ∀ o ∈ s.orders, IsModest o.price

instance (s : Situation) : Decidable s.Modest :=
  decidable_of_iff (IsModest s.lowestSellPrice ∧ IsModest s.highestBuyPrice ∧
      IsModest s.latestTradePrice ∧ ∀ o ∈ s.orders, IsModest o.price)
    ⟨fun ⟨ask, bid, latest, orders⟩ => ⟨ask, bid, latest, orders⟩,
      fun ⟨ask, bid, latest, orders⟩ => ⟨ask, bid, latest, orders⟩⟩

theorem mem_knownPrices {p : Int} : p ∈ s.knownPrices ↔
    (p = s.lowestSellPrice ∨ p = s.highestBuyPrice ∨ p = s.latestTradePrice) ∧ 0 < p := by
  simp [knownPrices]

theorem Modest.knownPrices (h : s.Modest) : ∀ p ∈ s.knownPrices, 0 < p ∧ IsModest p := by
  intro p mem
  obtain ⟨rfl | rfl | rfl, positive⟩ := mem_knownPrices.mp mem
  · exact ⟨positive, h.ask⟩
  · exact ⟨positive, h.bid⟩
  · exact ⟨positive, h.latest⟩

theorem Modest.margin (h : s.Modest) : ∀ o ∈ s.openOrders, InInt64 (s.margin o) := by
  intro o mem
  have price := h.orders o (List.mem_filter.mp mem).1
  have ask := h.ask
  have bid := h.bid
  unfold IsModest at price ask bid
  unfold InInt64 Situation.margin
  cases o.side with
  | buy => simp only; omega
  | sell => simp only; omega

end Situation

namespace RandomTrader

variable {t t' : RandomTrader} {s : Situation} {d : Decision}

theorem exists_midpoint {a b : Int} (ha : IsModest a) (hb : IsModest b) :
    ∃ price, midpoint a b = .ok price := by
  unfold IsModest at ha hb
  have fits : InInt64 (a + b) := ⟨by omega, by omega⟩
  exact ⟨_, midpoint_eq_ok_iff.mpr ⟨fits, rfl⟩⟩

theorem exists_revise (modest : s.Modest) (reference : IsModest t.referencePrice) :
    ∃ outcome, t.revise s = .ok outcome := by
  unfold revise
  split
  · obtain ⟨price, middle⟩ := exists_midpoint modest.latest reference
    rw [middle]
    exact ⟨_, rfl⟩
  · exact ⟨_, rfl⟩

theorem exists_concedeOnBuy (modest : s.Modest) (reference : IsModest t.referencePrice) :
    ∃ outcome, t.concedeOnBuy s = .ok outcome := by
  obtain ⟨middle, hm⟩ := exists_midpoint modest.bid reference
  unfold concedeOnBuy
  rw [hm]
  simp only [bind, Except.bind]
  generalize (if s.highestBuyPrice = 0 then t.referencePrice else middle) = price
  generalize (if 0 < price then s.availableCredit.tdiv price else 0) = affordable
  split
  · exact ⟨_, rfl⟩
  · exact exists_revise modest reference

theorem exists_concedeOnSell (modest : s.Modest) (reference : IsModest t.referencePrice) :
    ∃ outcome, t.concedeOnSell s = .ok outcome := by
  unfold concedeOnSell
  split
  · exact ⟨_, rfl⟩
  · obtain ⟨price, middle⟩ := exists_midpoint modest.ask reference
    rw [middle]
    exact ⟨_, rfl⟩

theorem exists_decideBelowCap (modest : s.Modest) (reference : IsModest t.referencePrice) :
    ∃ outcome, t.decideBelowCap s = .ok outcome := by
  unfold decideBelowCap decideWithOrders
  split
  · split
    · exact ⟨_, rfl⟩
    · exact ⟨_, rfl⟩
  · split
    · exact ⟨_, rfl⟩
    · split
      · exact ⟨_, rfl⟩
      · split
        · exact exists_concedeOnSell modest reference
        · exact exists_concedeOnBuy modest reference

theorem exists_decide (modest : s.Modest) (reference : IsModest t.referencePrice) :
    ∃ d t', t.decide s = .ok (d, t') := by
  have below := exists_decideBelowCap modest reference
  have search := Situation.leastCompetitive_eq modest.margin
  unfold decide
  split
  · rw [search]
    cases s.orders.find? s.isFarthest with
    | some o => exact ⟨_, _, rfl⟩
    | none =>
      obtain ⟨⟨d, t'⟩, h⟩ := below
      exact ⟨d, t', h⟩
  · obtain ⟨⟨d, t'⟩, h⟩ := below
    exact ⟨d, t', h⟩

variable {known : List Int} {shown price : Int}

theorem spans_midpoint (middle : midpoint shown t.referencePrice = .ok price) (nonneg : 0 ≤ shown)
    (positive : 0 < t.referencePrice) (hs : Spans known shown)
    (hr : Spans known t.referencePrice) : Spans known price := by
  obtain ⟨low, high⟩ := midpoint_between middle nonneg (Int.le_of_lt positive)
  exact hs.between hr low high

theorem Concedes.spans (h : t.Concedes shown price) (nonneg : 0 ≤ shown)
    (positive : 0 < t.referencePrice) (hs : 0 < shown → shown ∈ known)
    (hr : Spans known t.referencePrice) : Spans known price := by
  cases h with
  | unknown none => exact hr
  | halfway some_ middle =>
    have mem : shown ∈ known := hs (by omega)
    exact spans_midpoint middle nonneg positive (.of_mem mem) hr

theorem Rung.spans_reference (h : t.Rung s d t') (modest : s.Modest)
    (positive : 0 < t.referencePrice) (here : ∀ p ∈ s.knownPrices, p ∈ known)
    (hr : Spans known t.referencePrice) : Spans known t'.referencePrice := by
  cases h with
  | reprice traded middle =>
    have latest : s.latestTradePrice ∈ known :=
      here _ (Situation.mem_knownPrices.mpr ⟨.inr (.inr rfl), traded⟩)
    exact spans_midpoint middle modest.latest.1 positive (.of_mem latest) hr
  | _ => simpa using hr

theorem Rung.spans_placed {side : Side} {amount : Int} {motive : Motive}
    (h : t.Rung s (.place side amount price motive) t') (modest : s.Modest)
    (positive : 0 < t.referencePrice) (here : ∀ p ∈ s.knownPrices, p ∈ known)
    (hr : Spans known t.referencePrice) : Spans known price := by
  have ask : 0 < s.lowestSellPrice → s.lowestSellPrice ∈ known := by
    intro shown
    exact here _ (Situation.mem_knownPrices.mpr ⟨.inl rfl, shown⟩)
  have bid : 0 < s.highestBuyPrice → s.highestBuyPrice ∈ known := by
    intro shown
    exact here _ (Situation.mem_knownPrices.mpr ⟨.inr (.inl rfl), shown⟩)
  cases h with
  | initialSell | initialBuy => exact hr
  | askBelowReference shown => exact .of_mem (ask shown)
  | bidAboveReference shown => exact .of_mem (bid shown)
  | concedeOnSell _ concedes => exact concedes.spans modest.ask.1 positive ask hr
  | concedeOnBuy _ _ concedes => exact concedes.spans modest.bid.1 positive bid hr

/-- The reference price changes with a decision to change it only, which names both prices. -/
theorem Rung.reprices (h : t.Rung s d t') :
    (∀ before after, d = .reprice before after →
      before = t.referencePrice ∧ after = t'.referencePrice) ∧
    (t'.referencePrice ≠ t.referencePrice → d = .reprice t.referencePrice t'.referencePrice) := by
  cases h with
  | reprice traded middle =>
    refine ⟨?_, fun _ => rfl⟩
    rintro _ _ ⟨⟩
    exact ⟨rfl, rfl⟩
  | _ => simp

/-- What a look keeps to, given the prices known by then: every price lies in their span, and the
reference price is changed by a decision that names it before and after. -/
structure Look.Confined (known : List Int) (look : Look) : Prop where
  reference : Spans known look.after.referencePrice
  placed : ∀ side amount price motive, look.decision = .place side amount price motive →
    Spans known price ∧ 1 ≤ price
  repriced : ∀ before after, look.decision = .reprice before after →
    before = look.before.referencePrice ∧ after = look.after.referencePrice
  changed : look.after.referencePrice ≠ look.before.referencePrice →
    ∃ before after, look.decision = .reprice before after

/-- The prices that a trader has been shown in some looks. -/
def shownIn (looks : List Look) : List Int := looks.flatMap fun look => look.situation.knownPrices

theorem Rung.confined (h : t.Rung s d t') (modest : s.Modest) (positive : ∀ p ∈ known, 0 < p)
    (here : ∀ p ∈ s.knownPrices, p ∈ known) (hr : Spans known t.referencePrice) :
    Look.Confined known ⟨t, s, d, t'⟩ := by
  have reference : 0 < t.referencePrice := hr.pos positive
  obtain ⟨named, changed⟩ := h.reprices
  refine ⟨h.spans_reference modest reference here hr, ?_, named, fun h => ⟨_, _, changed h⟩⟩
  rintro side amount price motive rfl
  have span : Spans known price := h.spans_placed modest reference here hr
  exact ⟨span, span.pos positive⟩

theorem looks_confined {ss : List Situation} (prices : ∀ p ∈ known, 0 < p ∧ IsModest p)
    (hr : Spans known t.referencePrice) (modest : ∀ s ∈ ss, s.Modest) :
    ∃ looks, t.looks ss = .ok looks ∧ looks.map Look.situation = ss ∧
      ∀ earlier look later, looks = earlier ++ look :: later →
        look.Confined (known ++ shownIn (earlier ++ [look])) := by
  induction ss generalizing t known with
  | nil => exact ⟨[], rfl, rfl, by simp⟩
  | cons s ss ih =>
    have here : s.Modest := modest s List.mem_cons_self
    have reference : IsModest t.referencePrice := hr.modest fun p mem => (prices p mem).2
    obtain ⟨d, t', decides⟩ := exists_decide here reference
    -- from now on the prices of this situation are known as well
    have prices' : ∀ p ∈ known ++ s.knownPrices, 0 < p ∧ IsModest p := by
      intro p mem
      obtain old | new := List.mem_append.mp mem
      · exact prices p old
      · exact here.knownPrices p new
    have first : Look.Confined (known ++ s.knownPrices) ⟨t, s, d, t'⟩ :=
      (rung_of_decide decides).confined here (fun p mem => (prices' p mem).1)
        (fun p mem => List.mem_append_right _ mem) (hr.append _)
    obtain ⟨looks, rest, situations, confined⟩ :=
      ih prices' first.reference fun s mem => modest s (List.mem_cons_of_mem _ mem)
    refine ⟨⟨t, s, d, t'⟩ :: looks, ?_, congrArg (s :: ·) situations, ?_⟩
    · rw [looks_cons decides, rest]
      rfl
    · intro earlier look later parts
      cases earlier with
      | nil =>
        obtain ⟨rfl, -⟩ := List.cons.inj parts
        simpa [shownIn] using first
      | cons head earlier =>
        obtain ⟨rfl, tail⟩ := List.cons.inj parts
        simpa [shownIn] using confined earlier look later tail

/-- From a positive reference price, and while every price shown is none below zero and small enough
for two of them to be added, every look comes to a decision. After each, the reference price and the
price of an order that was decided lie between the least and the greatest of the first reference
price and the known prices shown so far, the latter is at least 1, and the reference price has
changed only by a decision that names it as it was and as it is. -/
theorem prices_confined {ss : List Situation} (positive : 1 ≤ t.referencePrice)
    (reference : IsModest t.referencePrice) (modest : ∀ s ∈ ss, s.Modest) :
    ∃ looks, t.looks ss = .ok looks ∧ looks.map Look.situation = ss ∧
      ∀ earlier look later, looks = earlier ++ look :: later →
        look.Confined (t.referencePrice :: shownIn (earlier ++ [look])) := by
  have known : ∀ p ∈ [t.referencePrice], 0 < p ∧ IsModest p := by
    intro p mem
    obtain rfl := List.mem_singleton.mp mem
    exact ⟨positive, reference⟩
  exact looks_confined known (.of_mem List.mem_cons_self) modest

/-- After a trade at 200 the reference price moves from 100 to 150. With an offer at 140 on the book
the trader then offers at 145, and later, without an order of its own, bids 150. -/
theorem three_prices_confined :
    let t := ofSeed 5 100 2
    let resting := [Order.placed 1 .buy 1 100 .epoch]
    let ss : List Situation :=
      [⟨resting, 10, 0, 0, 0, 200, 5⟩, ⟨resting, 10, 20, 140, 0, 0, 5⟩, ⟨[], 10, 0, 0, 300, 0, 5⟩]
    (1 ≤ t.referencePrice ∧ IsModest t.referencePrice ∧ ∀ s ∈ ss, s.Modest) ∧
      (t.looks ss).map (List.map Look.decision) = .ok
        [.reprice 100 150, .place .sell 2 145 .concedeOnSell, .place .buy 5 150 .initialBuy] ∧
      ∃ looks, t.looks ss = .ok looks ∧ ∀ earlier look later, looks = earlier ++ look :: later →
        Spans (100 :: shownIn (earlier ++ [look])) look.after.referencePrice := by
  intro t resting ss
  have positive : 1 ≤ t.referencePrice := by decide
  have reference : IsModest t.referencePrice := by decide
  have modest : ∀ s ∈ ss, s.Modest := by decide
  have decisions : (t.looks ss).map (List.map Look.decision) = .ok
      [.reprice 100 150, .place .sell 2 145 .concedeOnSell, .place .buy 5 150 .initialBuy] := by
    decide +kernel
  obtain ⟨looks, run, -, confined⟩ := prices_confined positive reference modest
  refine ⟨⟨positive, reference, modest⟩, decisions, looks, run, ?_⟩
  intro earlier look later parts
  exact (confined earlier look later parts).reference

end RandomTrader

end TradingLoad
