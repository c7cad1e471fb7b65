import TradingLoad.Proofs.Run.Alone

namespace TradingLoad

/-- A sum, difference or product is out of range. -/
def Fault.isOverflow : Fault → Bool
  | addOverflow => true
  | subOverflow => true
  | mulOverflow => true
  | zeroPeriod => false
  | instantOverflow => false
  | capacityOverflow => false

/-- A computation fails only by an overflow. -/
def OnlyOverflows {α : Type} (x : Checked α) : Prop := ∀ fault, x = .error fault → fault.isOverflow

namespace OnlyOverflows

variable {α β : Type}

theorem ok (a : α) : OnlyOverflows (.ok a) := by
  intro fault h
  cases h

theorem error {fault : Fault} (overflow : fault.isOverflow) :
    OnlyOverflows (.error fault : Checked α) := by
  intro fault' h
  obtain rfl := Except.error.inj h
  exact overflow

theorem bind {x : Checked α} {f : α → Checked β} (h : OnlyOverflows x)
    (k : ∀ a, OnlyOverflows (f a)) : OnlyOverflows (x >>= f) := by
  cases hx : x with
  | error fault => exact error (h fault hx)
  | ok a => exact k a

theorem map {x : Checked α} (f : α → β) (h : OnlyOverflows x) : OnlyOverflows (x.map f) := by
  cases hx : x with
  | error fault => exact error (h fault hx)
  | ok a => exact ok (f a)

theorem signed {fault : Fault} (overflow : fault.isOverflow) (a : Int) :
    OnlyOverflows (Checked.signed fault a) := by
  unfold Checked.signed
  split
  · exact ok a
  · exact error overflow

theorem add (a b : Int) : OnlyOverflows (Checked.add a b) := signed rfl _

theorem sub (a b : Int) : OnlyOverflows (Checked.sub a b) := signed rfl _

theorem mul (a b : Int) : OnlyOverflows (Checked.mul a b) := signed rfl _

theorem addNat (m n : Nat) : OnlyOverflows (Checked.addNat m n) := by
  unfold Checked.addNat Checked.unsigned
  split
  · exact ok _
  · exact error rfl

theorem addOrder (t : Totals) (o : Order) : OnlyOverflows (t.addOrder o) := by
  unfold Totals.addOrder
  split
  · apply (sub _ _).bind
    intro inventory
    apply (mul _ _).bind
    intro taken
    exact (add _ _).bind fun credit => ok _
  · apply (add _ _).bind
    intro inventory
    apply (mul _ _).bind
    intro paid
    exact (sub _ _).bind fun credit => ok _
  · split
    · exact ok t
    · split
      · exact (add _ _).bind fun reserved => ok _
      · apply (mul _ _).bind
        intro cost
        exact (add _ _).bind fun reserved => ok _

theorem ofOrders (orders : List Order) : OnlyOverflows (Totals.ofOrders orders) := by
  unfold Totals.ofOrders
  generalize Totals.zero = t
  induction orders generalizing t with
  | nil => exact ok t
  | cons o orders ih =>
    rw [List.foldlM_cons]
    exact (addOrder t o).bind ih

theorem withOrders (l : Ledger) (orders : List Order) : OnlyOverflows (l.withOrders orders) := by
  apply (ofOrders orders).bind
  intro totals
  apply (add _ _).bind
  intro credit
  exact (add _ _).bind fun inventory => ok _

theorem desync (l : Ledger) : OnlyOverflows l.desync := by
  apply (sub _ _).bind
  intro credit
  exact (sub _ _).bind fun inventory => ok _

theorem reconcile (l : Ledger) (remote : List Order) (now : Timestamp) :
    OnlyOverflows (l.reconcile remote now).2 := by
  unfold Ledger.reconcile
  split
  · exact ok _
  · split
    · exact ok _
    · next merged hm =>
      have whole := withOrders l merged
      split
      · next fault hf => exact error (whole fault hf)
      · split
        · exact (desync _).map _
        · exact ok _

theorem receive (inv : Investor) (now : Nat) (at_ : Timestamp) (c : Call) (r : c.Reply) :
    OnlyOverflows (inv.receive now at_ c r).2 := by
  cases c with
  | getOrders =>
    cases r with
    | error failure => exact ok _
    | ok orders => exact (reconcile inv.ledger orders at_).map _
  | _ => cases r <;> exact ok _

theorem leastCompetitiveFrom (s : Situation) (best : Option (Order × Int)) (orders : List Order) :
    OnlyOverflows (s.leastCompetitiveFrom best orders) := by
  induction orders generalizing best with
  | nil => exact ok _
  | cons o orders ih =>
    have margin : OnlyOverflows (s.opposingMargin o) := by
      unfold Situation.opposingMargin
      split
      · exact sub _ _
      · exact sub _ _
    unfold Situation.leastCompetitiveFrom
    apply margin.bind
    intro margin
    cases best with
    | none => exact ih _
    | some leader =>
      simp only
      split
      · exact ih _
      · exact ih _

theorem midpoint (a b : Int) : OnlyOverflows (RandomTrader.midpoint a b) :=
  (add a b).bind fun _ => ok _

theorem revise (t : RandomTrader) (s : Situation) : OnlyOverflows (t.revise s) := by
  unfold RandomTrader.revise
  split
  · exact (midpoint _ _).bind fun _ => ok _
  · exact ok _

theorem concedeOnBuy (t : RandomTrader) (s : Situation) : OnlyOverflows (t.concedeOnBuy s) := by
  apply (midpoint _ _).bind
  intro middle
  generalize (if s.highestBuyPrice = 0 then t.referencePrice else middle) = price
  simp only
  generalize (if 0 < price then s.availableCredit.tdiv price else 0) = affordable
  split
  · exact ok _
  · exact revise t s

theorem concedeOnSell (t : RandomTrader) (s : Situation) : OnlyOverflows (t.concedeOnSell s) := by
  unfold RandomTrader.concedeOnSell
  simp only
  split
  · exact ok _
  · exact (midpoint _ _).bind fun price => ok _

theorem decideBelowCap (t : RandomTrader) (s : Situation) :
    OnlyOverflows (t.decideBelowCap s) := by
  unfold RandomTrader.decideBelowCap RandomTrader.decideWithOrders
  split
  · split
    · exact ok _
    · exact ok _
  · split
    · exact ok _
    · split
      · exact ok _
      · split
        · exact concedeOnSell t s
        · exact concedeOnBuy t s

theorem traderDecide (t : RandomTrader) (s : Situation) : OnlyOverflows (t.decide s) := by
  unfold RandomTrader.decide
  split
  · have least : OnlyOverflows s.leastCompetitive :=
      (leastCompetitiveFrom s none s.openOrders).bind fun _ => ok _
    apply least.bind
    intro o
    cases o with
    | none => exact decideBelowCap t s
    | some o => exact ok _
  · exact decideBelowCap t s

theorem situation (inv : Investor) : OnlyOverflows inv.situation := by
  apply (sub _ _).bind
  intro credit
  exact (sub _ _).bind fun inventory => ok _

theorem begin (inv : Investor) (retired : Bool) (now : Nat) (task : Task) :
    OnlyOverflows (inv.begin retired now task) := by
  cases task with
  | decision =>
    have decide : OnlyOverflows (inv.decide retired now) := by
      unfold Investor.decide
      split
      · exact ok _
      · apply (situation inv).bind
        intro s
        exact (traderDecide inv.trader s).bind fun _ => ok _
    exact decide.bind fun _ => ok _
  | _ => exact ok _

end OnlyOverflows

namespace World

variable {σ : Type} {env : Environment σ} {deadline : Deadline}

theorem ComesTo.onlyOverflows {w u : World σ} {task : Task} {ending : Checked Composite.Ending}
    (h : ComesTo env deadline w task u ending) : OnlyOverflows ending := by
  cases h with
  | late => exact .ok _
  | @faults v fault waits h => exact .error (OnlyOverflows.begin _ _ _ _ fault h)
  | skips => exact .ok _
  | hangs => exact .ok _
  | @answered v u c => exact (OnlyOverflows.receive u.investor u.now _ c _).map _

theorem onlyOverflows_runTasks (r : Composite.Report) (tasks : List Task) (w : World σ) :
    OnlyOverflows (Composite.runTasks Task.name (runTask env deadline) r tasks w).2 := by
  induction tasks generalizing r w with
  | nil => exact .ok _
  | cons task tasks ih =>
    have comes := (comesTo_runTask env deadline w task).onlyOverflows
    unfold Composite.runTasks
    cases h : w.runTask env deadline task with
    | mk v ending =>
      rw [h] at comes
      rcases ending with fault | (_ | (failure | score))
      · exact .error (comes fault rfl)
      · exact .ok _
      · exact .ok _
      · simp only
        cases sum : Checked.addNat r.score score with
        | error fault => exact .error (OnlyOverflows.addNat _ _ fault sum)
        | ok total => exact ih _ v

end World

end TradingLoad
