import TradingLoad.Proofs.Policy.Ladder

namespace TradingLoad

/-- The price held to be fair changes. -/
def Decision.isReprice : Decision → Bool
  | .reprice _ _ => true
  | _ => false

/-- The second price is the first one later on, no farther from the trades and on the same side. -/
structure Towards (latest before after : Int) : Prop where
  above : latest ≤ before → latest ≤ after ∧ after ≤ before
  below : before < latest → before ≤ after ∧ after < latest

/-- Where a price comes to rest while all trades are at one price. -/
def restAt (latest price : Int) : Int := if latest ≤ price then latest else latest - 1

/-- How far a price is from where it comes to rest. -/
def distance (latest price : Int) : Nat := (price - restAt latest price).natAbs

namespace Towards

variable {latest a b c : Int}

theorem refl (latest a : Int) : Towards latest a a :=
  ⟨fun above => ⟨above, Int.le_refl a⟩, fun below => ⟨Int.le_refl a, below⟩⟩

theorem trans (h : Towards latest a b) (k : Towards latest b c) : Towards latest a c := by
  constructor
  · intro above
    obtain ⟨above', fallen⟩ := h.above above
    obtain ⟨above'', fallen'⟩ := k.above above'
    exact ⟨above'', Int.le_trans fallen' fallen⟩
  · intro below
    obtain ⟨risen, below'⟩ := h.below below
    obtain ⟨risen', below''⟩ := k.below below'
    exact ⟨Int.le_trans risen risen', below''⟩

theorem restAt_eq (h : Towards latest a b) : restAt latest b = restAt latest a := by
  unfold restAt
  by_cases above : latest ≤ a
  · rw [if_pos above, if_pos (h.above above).1]
  · have below : b < latest := (h.below (Int.lt_of_not_ge above)).2
    rw [if_neg above, if_neg (Int.not_le.mpr below)]

end Towards

namespace RandomTrader

variable {t t' : RandomTrader} {s : Situation} {d : Decision} {latest a b c : Int} {m n : Nat}

theorem towards_midpoint (h : midpoint latest a = .ok b) (traded : 1 ≤ latest) (positive : 1 ≤ a) :
    Towards latest a b := by
  obtain ⟨-, rfl⟩ := midpoint_eq_ok_iff.mp h
  have whole : (latest + a).tdiv 2 = (latest + a) / 2 := Int.tdiv_eq_ediv_of_nonneg (by omega)
  rw [whole]
  constructor
  · intro above
    omega
  · intro below
    omega

theorem distance_midpoint (h : midpoint latest a = .ok b) (traded : 1 ≤ latest)
    (positive : 1 ≤ a) : distance latest b = distance latest a / 2 := by
  have rest : restAt latest b = restAt latest a := (towards_midpoint h traded positive).restAt_eq
  obtain ⟨-, rfl⟩ := midpoint_eq_ok_iff.mp h
  have whole : (latest + a).tdiv 2 = (latest + a) / 2 := Int.tdiv_eq_ediv_of_nonneg (by omega)
  rw [whole] at rest ⊢
  unfold distance
  rw [rest]
  unfold restAt
  split
  · omega
  · omega

/-- A positive price after some revisions, each of which has halved its distance. -/
structure Drifts (latest before after : Int) (revisions : Nat) : Prop where
  positive : 1 ≤ after
  towards : Towards latest before after
  halved : 2 ^ revisions * distance latest after ≤ distance latest before

namespace Drifts

theorem refl (latest : Int) (positive : 1 ≤ a) : Drifts latest a a 0 :=
  ⟨positive, .refl latest a, by simp⟩

theorem trans (h : Drifts latest a b m) (k : Drifts latest b c n) :
    Drifts latest a c (m + n) := by
  refine ⟨k.positive, h.towards.trans k.towards, ?_⟩
  calc 2 ^ (m + n) * distance latest c
      = 2 ^ m * (2 ^ n * distance latest c) := by rw [Nat.pow_add, Nat.mul_assoc]
    _ ≤ 2 ^ m * distance latest b := Nat.mul_le_mul_left _ k.halved
    _ ≤ distance latest a := h.halved

theorem midpoint (h : midpoint latest a = .ok b) (traded : 1 ≤ latest) (positive : 1 ≤ a) :
    Drifts latest a b 1 := by
  have towards := towards_midpoint h traded positive
  have halved := distance_midpoint h traded positive
  refine ⟨?_, towards, by omega⟩
  by_cases above : latest ≤ a
  · have := towards.above above
    omega
  · have := towards.below (by omega)
    omega

/-- A price whose distance is short enough for so many revisions has come to rest. -/
theorem settled (h : Drifts latest a b n) (short : distance latest a < 2 ^ n) :
    b = restAt latest a := by
  have none : distance latest b = 0 := by
    by_contra some_
    have one : 1 ≤ distance latest b := Nat.pos_of_ne_zero some_
    have long : 2 ^ n * 1 ≤ 2 ^ n * distance latest b := Nat.mul_le_mul_left _ one
    have halved := h.halved
    omega
  rw [← h.towards.restAt_eq]
  unfold distance at none
  omega

end Drifts

theorem Rung.drifts (h : t.Rung s d t') (traded : 1 ≤ s.latestTradePrice)
    (positive : 1 ≤ t.referencePrice) :
    Drifts s.latestTradePrice t.referencePrice t'.referencePrice
      (if d.isReprice then 1 else 0) := by
  cases h with
  | reprice shown middle => exact .midpoint middle traded positive
  | cancel | initialSell | initialBuy | hold => exact .refl _ positive
  | askBelowReference | bidAboveReference | concedeOnSell | concedeOnBuy =>
    rw [referencePrice_drawAmount]
    exact .refl _ positive

/-- How often the reference price is revised. -/
def revisions (looks : List Look) : Nat := looks.countP fun look => look.decision.isReprice

variable {ss : List Situation} {looks : List Look}

theorem drifts_looks (positive : 1 ≤ t.referencePrice) (traded : 1 ≤ latest)
    (steady : ∀ s ∈ ss, s.latestTradePrice = latest) (run : t.looks ss = .ok looks) :
    Drifts latest t.referencePrice (t.afterLooks looks).referencePrice (revisions looks) := by
  induction ss generalizing t looks with
  | nil =>
    obtain rfl := Except.ok.inj run
    exact .refl latest positive
  | cons s ss ih =>
    obtain ⟨d, t', rest, decides, onward, rfl⟩ := looks_cons_eq_ok run
    have here : s.latestTradePrice = latest := steady s List.mem_cons_self
    have first := (rung_of_decide decides).drifts (here ▸ traded) positive
    rw [here] at first
    have further := ih first.positive (fun s mem => steady s (List.mem_cons_of_mem _ mem)) onward
    have whole := first.trans further
    rw [Nat.add_comm] at whole
    simpa only [revisions, List.countP_cons, afterLooks] using whole

/-- The reference price before some looks and after each of them. -/
def pricesOver (t : RandomTrader) (looks : List Look) : List Int :=
  t.referencePrice :: looks.map fun look => look.after.referencePrice

theorem pairwise_towards (positive : 1 ≤ t.referencePrice) (traded : 1 ≤ latest)
    (steady : ∀ s ∈ ss, s.latestTradePrice = latest) (run : t.looks ss = .ok looks) :
    (t.pricesOver looks).Pairwise (Towards latest) := by
  induction ss generalizing t looks with
  | nil =>
    obtain rfl := Except.ok.inj run
    exact List.pairwise_singleton _ _
  | cons s ss ih =>
    obtain ⟨d, t', rest, decides, onward, rfl⟩ := looks_cons_eq_ok run
    have here : s.latestTradePrice = latest := steady s List.mem_cons_self
    have first := (rung_of_decide decides).drifts (here ▸ traded) positive
    rw [here] at first
    have further : (t'.pricesOver rest).Pairwise (Towards latest) :=
      ih first.positive (fun s mem => steady s (List.mem_cons_of_mem _ mem)) onward
    refine List.pairwise_cons.mpr ⟨?_, further⟩
    intro price mem
    obtain rfl | later := List.mem_cons.mp mem
    · exact first.towards
    · exact first.towards.trans ((List.pairwise_cons.mp further).1 price later)

theorem distance_lt (positive : 1 ≤ a) (traded : 1 ≤ latest)
    (fits : a + latest < 0x8000000000000000) : distance latest a < 2 ^ 63 := by
  unfold distance restAt
  split
  · omega
  · omega

/-- The revision of a price that has drifted is in range, unless it comes from below and the price
of the trades cannot be added to itself. -/
theorem Drifts.sum_fits (h : Drifts latest a b n) (traded : 1 ≤ latest)
    (fits : a + latest < 0x8000000000000000)
    (room : latest ≤ a ∨ 2 * latest ≤ 0x8000000000000000) : InInt64 (latest + b) := by
  have positive := h.positive
  unfold InInt64
  by_cases above : latest ≤ a
  · have fallen := (h.towards.above above).2
    omega
  · have below := (h.towards.below (Int.lt_of_not_ge above)).2
    omega

/-- While every trade is at one price, the reference price moves towards it only and stays on its
side of it. From the 63rd revision on it is at the price of the trades if it has come from there or
above, and one below if it has come from below. No revision is out of range on the way, unless the
price has come from below and that of the trades is above half of the range. -/
theorem reference_price_settles (positive : 1 ≤ t.referencePrice) (traded : 1 ≤ latest)
    (fits : t.referencePrice + latest < 0x8000000000000000)
    (steady : ∀ s ∈ ss, s.latestTradePrice = latest) (run : t.looks ss = .ok looks) :
    (t.pricesOver looks).Pairwise (Towards latest) ∧
    ∀ earlier later, looks = earlier ++ later →
      (63 ≤ revisions earlier → (t.afterLooks earlier).referencePrice =
        if latest ≤ t.referencePrice then latest else latest - 1) ∧
      (latest ≤ t.referencePrice ∨ 2 * latest ≤ 0x8000000000000000 →
        InInt64 (latest + (t.afterLooks earlier).referencePrice)) := by
  refine ⟨pairwise_towards positive traded steady run, ?_⟩
  rintro earlier later rfl
  obtain ⟨first, last, rfl, run', -⟩ := looks_eq_ok_append run
  have drifts := drifts_looks positive traded
    (fun s mem => steady s (List.mem_append_left last mem)) run'
  constructor
  · intro enough
    apply drifts.settled
    calc distance latest t.referencePrice
        < 2 ^ 63 := distance_lt positive traded fits
      _ ≤ 2 ^ revisions earlier := Nat.pow_le_pow_right (by decide) enough
  · intro room
    exact drifts.sum_fits traded fits room

/-- From the top of the range down to trades at 1: all 63 revisions are needed. -/
theorem reference_price_settles_at_one :
    let t := ofSeed 5 0x7FFFFFFFFFFFFFFE 0
    let s : Situation := ⟨[.placed 1 .buy 1 1 .epoch], 0, 0, 0, 0, 1, 5⟩
    (1 ≤ t.referencePrice ∧ t.referencePrice + 1 < 0x8000000000000000) ∧
      (∃ looks, t.looks (List.replicate 62 s) = .ok looks ∧ revisions looks = 62 ∧
        (t.afterLooks looks).referencePrice = 2) ∧
      ∃ looks, t.looks (List.replicate 64 s) = .ok looks ∧ revisions looks = 64 ∧
        (t.afterLooks looks).referencePrice = 1 := by
  intro t s
  have positive : 1 ≤ t.referencePrice := by decide
  have fits : t.referencePrice + 1 < 0x8000000000000000 := by decide
  have traded : 1 ≤ s.latestTradePrice := by decide
  have steady : ∀ s' ∈ List.replicate 64 s, s'.latestTradePrice = 1 := by
    intro s' mem
    rw [List.eq_of_mem_replicate mem]
  have almost : (t.looks (List.replicate 62 s)).toOption.any fun looks =>
      revisions looks == 62 && (t.afterLooks looks).referencePrice == 2 := by
    decide +kernel
  have rehearsal : (t.looks (List.replicate 64 s)).toOption.any fun looks =>
      revisions looks == 64 := by
    decide +kernel
  refine ⟨⟨positive, fits⟩, ?_, ?_⟩
  · obtain ⟨looks, run, found⟩ := exists_ok_of_any almost
    simp only [Bool.and_eq_true, beq_iff_eq] at found
    exact ⟨looks, run, found⟩
  · obtain ⟨looks, run, found⟩ := exists_ok_of_any rehearsal
    have revised : revisions looks = 64 := eq_of_beq found
    obtain ⟨-, settles⟩ := reference_price_settles positive traded fits steady run
    have settled := (settles looks [] (List.append_nil looks).symm).1 (by omega)
    exact ⟨looks, run, revised, settled⟩

/-- From below, a price that is above half of the range is out of reach: after one revision the sum
of the two prices does not fit. -/
example :
    let s : Situation := ⟨[.placed 1 .buy 1 1 .epoch], 0, 0, 0, 0, 0x7FFFFFFFFFFFFFFE, 5⟩
    ((ofSeed 5 1 0).looks [s]).toOption.isSome ∧ ((ofSeed 5 1 0).looks [s, s]).toOption.isNone := by
  decide +kernel

end RandomTrader

end TradingLoad
