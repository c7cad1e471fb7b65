import TradingLoad.Proofs.Policy.Ladder

namespace TradingLoad

/-- The order is placed for want of any other one. -/
def Motive.isInitial : Motive → Bool
  | .initialSell | .initialBuy => true
  | _ => false

namespace Decision

/-- The trader remains as it is. -/
def isQuiet : Decision → Bool
  | .hold | .cancel _ => true
  | .place _ _ _ motive => motive.isInitial
  | .reprice _ _ => false

/-- How many random numbers go into a decision: one into the amount of an order, unless it is a
first order, which is for a whole unit. -/
def draws : Decision → Nat
  | .place _ _ _ motive => if motive.isInitial then 0 else 1
  | _ => 0

end Decision

/-- A list without the entries at some positions. -/
def leaveOut {α : Type} (left : Nat → Bool) : List α → List α
  | [] => []
  | x :: xs =>
    if left 0 then leaveOut (fun i => left (i + 1)) xs
    else x :: leaveOut (fun i => left (i + 1)) xs

namespace Random.Stream

theorem position_lt_drawBelow (n tries : Nat) (s : Stream) :
    s.position < (drawBelow n tries s).2.position := by
  have next : ∀ s : Stream, s.position < s.next64.2.position := by
    intro s
    exact Nat.lt_add_of_pos_right (by decide)
  induction tries generalizing s with
  | zero => exact next s
  | succ tries ih =>
    simp only [drawBelow]
    split
    · exact next s
    · exact Nat.lt_trans (next s) (ih _)

/-- A draw uses up a part of the stream. -/
theorem position_lt_uniform (n : Nat) (s : Stream) : s.position < (s.uniform n).2.position :=
  s.position_lt_drawBelow n patience

end Random.Stream

namespace RandomTrader

/-- A way to decide. -/
abbrev Choice := RandomTrader → Situation → Checked (Decision × RandomTrader)

/-- How many numbers a trader draws when it chooses, from whatever source it draws: none, or one, up
to a number that does not depend on the source, and the decision is made of it. -/
inductive Draws (choose : Choice) (t : RandomTrader) (s : Situation) : Nat → Prop where
  | none (d : Decision) (referencePrice : Int)
      (always : ∀ source, choose { t with source } s =
        .ok (d, { t with source, referencePrice })) : Draws choose t s 0
  | one (upper : Nat) (decided : Nat → Decision)
      (always : ∀ source, choose { t with source } s =
        .ok (decided (source.uniform upper).1, { t with source := (source.uniform upper).2 })) :
      Draws choose t s 1

variable {t t' : RandomTrader} {s : Situation} {d : Decision} {choose : Choice} {m n : Nat}

/-- To draw and not to draw are different things. -/
theorem Draws.unique (h : Draws choose t s m) (k : Draws choose t s n) : m = n := by
  have clash : ∀ {d upper} {decided : Nat → Decision} {referencePrice : Int},
      choose t s = .ok (d, { t with referencePrice }) →
      choose t s = .ok (decided (t.source.uniform upper).1,
        { t with source := (t.source.uniform upper).2 }) → False := by
    intro d upper decided referencePrice without with_
    have same := (Prod.mk.inj (Except.ok.inj (without.symm.trans with_))).2
    have source : t.source = (t.source.uniform upper).2 := congrArg RandomTrader.source same
    have further := t.source.position_lt_uniform upper
    rw [← source] at further
    exact Nat.lt_irrefl _ further
  cases h with
  | none d referencePrice always =>
    cases k with
    | none => rfl
    | one upper decided always' => exact (clash (always t.source) (always' t.source)).elim
  | one upper decided always =>
    cases k with
    | none d referencePrice always' => exact (clash (always' t.source) (always t.source)).elim
    | one => rfl

theorem draws_of_placeAtRandom {side : Side} {upper price : Int} {most : Option Int}
    {motive : Motive} (drawn : motive.isInitial = false)
    (always : ∀ source, choose { t with source } s =
      .ok (({ t with source } : RandomTrader).placeAtRandom side upper most price motive))
    (h : choose t s = .ok (d, t')) : Draws choose t s d.draws := by
  have amount : d.draws = 1 := by
    have here := Except.ok.inj (h.symm.trans (always t.source))
    have placed : d = (t.placeAtRandom side upper most price motive).1 := congrArg Prod.fst here
    rw [placed]
    cases most with
    | none => rw [placeAtRandom_none, Decision.draws, drawn]; rfl
    | some most => rw [placeAtRandom_some, Decision.draws, drawn]; rfl
  rw [amount]
  refine .one (max upper 1).toNat
    (fun v => .place side ((most.map (min (min (v : Int) t.unitAmount))).getD
      (min (v : Int) t.unitAmount)) price motive) ?_
  intro source
  rw [always source]
  cases most with
  | none => rw [placeAtRandom_none, drawAmount_eq]; rfl
  | some most => rw [placeAtRandom_some, drawAmount_eq]; rfl

/-- One way to decide comes to another one. -/
theorem Draws.congr {choose' : Choice} (h : Draws choose' t s n)
    (same : ∀ source, choose { t with source } s = choose' { t with source } s) :
    Draws choose t s n := by
  cases h with
  | none d referencePrice always =>
    refine .none d referencePrice ?_
    intro source
    rw [same, always]
  | one upper decided always =>
    refine .one upper decided ?_
    intro source
    rw [same, always]

theorem draws_of_revise (h : t.revise s = .ok (d, t')) : Draws revise t s d.draws := by
  unfold revise at h
  split at h
  · next traded =>
    obtain ⟨price, middle, h⟩ := Checked.bind_eq_ok_iff.mp h
    obtain ⟨rfl, rfl⟩ := Prod.mk.inj (Except.ok.inj h)
    refine .none (.reprice t.referencePrice price) price ?_
    intro source
    simp only [revise, traded, if_true, middle]
    rfl
  · next untraded =>
    obtain ⟨rfl, rfl⟩ := Prod.mk.inj (Except.ok.inj h)
    refine .none .hold t.referencePrice ?_
    intro source
    simp only [revise, untraded, if_false]

theorem draws_of_concedeOnBuy (h : t.concedeOnBuy s = .ok (d, t')) :
    Draws concedeOnBuy t s d.draws := by
  obtain ⟨middle, hm, -⟩ := Checked.bind_eq_ok_iff.mp h
  let price := if s.highestBuyPrice = 0 then t.referencePrice else middle
  let affordable := if 0 < price then s.availableCredit.tdiv price else 0
  have opened : ∀ source, concedeOnBuy { t with source } s =
      if middle < s.availableCredit ∧ 0 < affordable then
        .ok (({ t with source } : RandomTrader).placeAtRandom .buy t.unitAmount (some affordable)
          price .concedeOnBuy)
      else revise { t with source } s := by
    intro source
    simp only [concedeOnBuy, hm, bind, Except.bind]
    rfl
  by_cases enough : middle < s.availableCredit ∧ 0 < affordable
  · have always := fun source => (opened source).trans (if_pos enough)
    exact draws_of_placeAtRandom rfl always h
  · have always := fun source => (opened source).trans (if_neg enough)
    exact (draws_of_revise ((always t.source).symm.trans h)).congr always

theorem draws_of_concedeOnSell (h : t.concedeOnSell s = .ok (d, t')) :
    Draws concedeOnSell t s d.draws := by
  by_cases unknown : s.lowestSellPrice = 0
  · have always : ∀ source, concedeOnSell { t with source } s =
        .ok (({ t with source } : RandomTrader).placeAtRandom .sell t.unitAmount none
          t.referencePrice .concedeOnSell) := by
      intro source
      simp only [concedeOnSell, unknown, if_true]
      rfl
    exact draws_of_placeAtRandom rfl always h
  · cases hm : midpoint s.lowestSellPrice t.referencePrice with
    | error fault => simp [concedeOnSell, unknown, hm, bind, Except.bind] at h
    | ok price =>
      have always : ∀ source, concedeOnSell { t with source } s =
          .ok (({ t with source } : RandomTrader).placeAtRandom .sell t.unitAmount none price
            .concedeOnSell) := by
        intro source
        simp only [concedeOnSell, unknown, if_false, hm]
        rfl
      exact draws_of_placeAtRandom rfl always h

theorem draws_of_decideWithOrders (h : t.decideWithOrders s = .ok (d, t')) :
    Draws decideWithOrders t s d.draws := by
  by_cases cheap : 0 < s.lowestSellPrice ∧ s.lowestSellPrice < t.referencePrice ∧
      s.lowestSellPrice ≤ s.availableCredit
  · have always : ∀ source, decideWithOrders { t with source } s =
        .ok (({ t with source } : RandomTrader).placeAtRandom .buy
          (s.availableCredit.tdiv s.lowestSellPrice) none s.lowestSellPrice
          .askBelowReference) := fun source => if_pos cheap
    exact draws_of_placeAtRandom rfl always h
  · by_cases dear : 0 < s.highestBuyPrice ∧ t.referencePrice < s.highestBuyPrice ∧
        0 < s.availableInventory
    · have always : ∀ source, decideWithOrders { t with source } s =
          .ok (({ t with source } : RandomTrader).placeAtRandom .sell s.availableInventory none
            s.highestBuyPrice .bidAboveReference) :=
        fun source => (if_neg cheap).trans (if_pos dear)
      exact draws_of_placeAtRandom rfl always h
    · by_cases enough : t.unitAmount < s.availableInventory
      · have always : ∀ source, decideWithOrders { t with source } s =
            concedeOnSell { t with source } s :=
          fun source => (if_neg cheap).trans ((if_neg dear).trans (if_pos enough))
        exact (draws_of_concedeOnSell ((always t.source).symm.trans h)).congr always
      · have always : ∀ source, decideWithOrders { t with source } s =
            concedeOnBuy { t with source } s :=
          fun source => (if_neg cheap).trans ((if_neg dear).trans (if_neg enough))
        exact (draws_of_concedeOnBuy ((always t.source).symm.trans h)).congr always

theorem draws_of_decideBelowCap (h : t.decideBelowCap s = .ok (d, t')) :
    Draws decideBelowCap t s d.draws := by
  unfold decideBelowCap at h
  split at h
  · next idle =>
    split at h
    · next enough =>
      obtain ⟨rfl, rfl⟩ := Prod.mk.inj (Except.ok.inj h)
      refine .none (.place .sell t.unitAmount t.referencePrice .initialSell) t.referencePrice ?_
      intro source
      exact (if_pos idle).trans (if_pos enough)
    · next short =>
      obtain ⟨rfl, rfl⟩ := Prod.mk.inj (Except.ok.inj h)
      refine .none (.place .buy t.unitAmount t.referencePrice .initialBuy) t.referencePrice ?_
      intro source
      exact (if_pos idle).trans (if_neg short)
  · next resting =>
    refine (draws_of_decideWithOrders h).congr ?_
    intro source
    exact if_neg resting

theorem draws_of_decide (h : t.decide s = .ok (d, t')) : Draws decide t s d.draws := by
  unfold decide at h
  split at h
  · next full =>
    obtain ⟨worst, hw, h⟩ := Checked.bind_eq_ok_iff.mp h
    cases worst with
    | some o =>
      obtain ⟨rfl, rfl⟩ := Prod.mk.inj (Except.ok.inj h)
      refine .none (.cancel o.id) t.referencePrice ?_
      intro source
      simp only [decide, full, if_true, hw]
      rfl
    | none =>
      refine (draws_of_decideBelowCap h).congr ?_
      intro source
      simp only [decide, full, if_true, hw]
      rfl
  · next room =>
    refine (draws_of_decideBelowCap h).congr ?_
    intro source
    exact if_neg room

theorem Rung.eq_of_isQuiet (h : t.Rung s d t') (quiet : d.isQuiet) : t' = t := by
  cases h with
  | cancel | initialSell | initialBuy | hold => rfl
  | _ => cases quiet

variable {ss : List Situation} {looks : List Look} {look : Look} {left : Nat → Bool}

theorem decide_of_mem_looks (run : t.looks ss = .ok looks) (mem : look ∈ looks) :
    look.before.decide look.situation = .ok (look.decision, look.after) := by
  induction ss generalizing t looks with
  | nil =>
    obtain rfl := Except.ok.inj run
    cases mem
  | cons s ss ih =>
    obtain ⟨d, t', rest, decides, onward, rfl⟩ := looks_cons_eq_ok run
    obtain rfl | later := List.mem_cons.mp mem
    · exact decides
    · exact ih onward later

/-- Quiet looks can be left out: all others come about as before, and leave the same trader. -/
theorem looks_leaveOut (run : t.looks ss = .ok looks)
    (quiet : ∀ i look, looks[i]? = some look → left i → look.decision.isQuiet) :
    t.looks (leaveOut left ss) = .ok (leaveOut left looks) ∧
      t.afterLooks (leaveOut left looks) = t.afterLooks looks := by
  induction ss generalizing t looks left with
  | nil =>
    obtain rfl := Except.ok.inj run
    exact ⟨rfl, rfl⟩
  | cons s ss ih =>
    obtain ⟨d, t', rest, decides, onward, rfl⟩ := looks_cons_eq_ok run
    have further : ∀ i look, rest[i]? = some look → left (i + 1) → look.decision.isQuiet :=
      fun i look here out => quiet (i + 1) look here out
    obtain ⟨run', leaves⟩ := ih onward further
    by_cases out : left 0
    · have same : t' = t := (rung_of_decide decides).eq_of_isQuiet (quiet 0 _ rfl out)
      simp only [leaveOut, out, if_true, afterLooks]
      rw [← same]
      exact ⟨run', leaves⟩
    · simp only [leaveOut, out, Bool.false_eq_true, if_false, afterLooks]
      refine ⟨?_, leaves⟩
      rw [looks_cons decides, run']
      rfl

/-- **Quiet looks leave no trace.** Leave any looks out of a run in which the trader held, took an
order back or placed its first one: every other look comes to the same decision as before, and the
trader that is left at the end is the same, with the same reference price and source. A number is
drawn once for each of the other orders, and never else. -/
theorem quiet_looks_leave_no_trace (run : t.looks ss = .ok looks)
    (quiet : ∀ i look, looks[i]? = some look → left i → look.decision.isQuiet) :
    t.looks (leaveOut left ss) = .ok (leaveOut left looks) ∧
      t.afterLooks (leaveOut left looks) = t.afterLooks looks ∧
      ∀ look ∈ looks, ∀ n,
        Draws decide look.before look.situation n ↔ n = look.decision.draws := by
  obtain ⟨run', leaves⟩ := looks_leaveOut run quiet
  refine ⟨run', leaves, ?_⟩
  intro look mem n
  have draws := draws_of_decide (decide_of_mem_looks run mem)
  constructor
  · intro h
    exact h.unique draws
  · rintro rfl
    exact draws

/-- A run without its first order and without an order taken back: the amounts 2 and 1 are drawn as
before. -/
theorem first_order_and_cancellation_left_out :
    let t := ofSeed 5 100 2
    let bid := Order.placed 1 .buy 1 100 .epoch
    let ss : List Situation :=
      [⟨[], 500, 0, 0, 0, 0, 2⟩, ⟨[bid], 400, 0, 90, 0, 0, 2⟩,
        ⟨[bid, .placed 2 .buy 4 90 .epoch], 40, 0, 0, 0, 0, 2⟩, ⟨[bid], 0, 0, 0, 0, 200, 2⟩,
        ⟨[bid], 400, 6, 0, 0, 0, 2⟩]
    let left : Nat → Bool := fun i => i == 0 || i == 2
    ∃ looks, t.looks ss = .ok looks ∧
      looks.map Look.decision = [.place .buy 5 100 .initialBuy, .place .buy 2 90 .askBelowReference,
        .cancel 2, .reprice 100 150, .place .sell 1 150 .concedeOnSell] ∧
      (∀ i look, looks[i]? = some look → left i → look.decision.isQuiet) ∧
      t.looks (leaveOut left ss) = .ok (leaveOut left looks) ∧
      (t.afterLooks (leaveOut left looks)).referencePrice = 150 := by
  intro t bid ss left
  have rehearsal : (t.looks ss).toOption.any fun looks =>
      looks.map Look.decision == [.place .buy 5 100 .initialBuy,
        .place .buy 2 90 .askBelowReference, .cancel 2, .reprice 100 150,
        .place .sell 1 150 .concedeOnSell] &&
      (t.afterLooks looks).referencePrice == 150 := by
    decide +kernel
  obtain ⟨looks, run, found⟩ := exists_ok_of_any rehearsal
  simp only [Bool.and_eq_true, beq_iff_eq] at found
  obtain ⟨decisions, reference⟩ := found
  have quiet : ∀ i look, looks[i]? = some look → left i → look.decision.isQuiet := by
    intro i look here out
    have decided : (looks.map Look.decision)[i]? = some look.decision := by
      rw [List.getElem?_map, here]
      rfl
    rw [decisions] at decided
    simp only [left, Bool.or_eq_true, beq_iff_eq] at out
    obtain rfl | rfl := out
    · rw [← Option.some.inj decided]
      rfl
    · rw [← Option.some.inj decided]
      rfl
  obtain ⟨again, same, -⟩ := quiet_looks_leave_no_trace run quiet
  refine ⟨looks, run, decisions, quiet, again, ?_⟩
  rw [same]
  exact reference

end RandomTrader

end TradingLoad
