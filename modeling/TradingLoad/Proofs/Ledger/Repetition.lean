import TradingLoad.Proofs.Ledger.Exits

namespace TradingLoad

namespace Ledger

variable {orders remote earlier later mid merged : List Order} {now t₁ t₂ t₃ : Timestamp}
  {o m o' : Order} {l : Ledger}

/-- An order that is open afterwards was open and is the exchange's version. -/
theorem Taken.listed_of_isOpen (h : Taken remote now o o') (resting : o'.isOpen) :
    o.isOpen ∧ remoteOf remote o = some o' := by
  cases h with
  | removed removed => simp [Order.isOpen, removed] at resting
  | listed restingBefore first => exact ⟨restingBefore, first⟩
  | dropped => simp [Order.isOpen, Order.isRemoved, Order.isClosed] at resting

theorem remoteOf_congr (same : m.id = o.id) : remoteOf remote m = remoteOf remote o := by
  simp only [remoteOf, same]

theorem Taken.again (h : Taken remote t₁ o o') : Taken remote t₂ o' o' := by
  obtain resting | removed := o'.isOpen_or_isRemoved
  · have first := (h.listed_of_isOpen resting).2
    exact .listed resting ((remoteOf_congr h.id).trans first)
  · exact .removed removed

/-- Both lists have a version of the order, the first one in the earlier list is on the order's
side, and if it is removed it is the first one in the later list. -/
def ListedInBoth (earlier later : List Order) (o : Order) : Prop :=
  ∃ r ∈ remoteOf earlier o, r.side = o.side ∧ ∃ r' ∈ remoteOf later o, r.isRemoved → r' = r

instance : Decidable (ListedInBoth earlier later o) := by
  unfold ListedInBoth
  infer_instance

theorem ListedInBoth.isSome (h : ListedInBoth earlier later o) : (remoteOf later o).isSome := by
  obtain ⟨-, -, -, r', found, -⟩ := h
  exact Option.isSome_of_mem found

/-- What an order was taken over as from the earlier list, the later one makes the same of as of the
order itself. -/
theorem Taken.through (h : Taken earlier t₁ o m) (k : Taken later t₃ o o')
    (listed : o.isOpen → ListedInBoth earlier later o) : Taken later t₂ m o' := by
  cases h with
  | removed removed =>
    obtain rfl := k.unique (.removed removed)
    exact .removed removed
  | listed resting first =>
    obtain ⟨r, hr, -, r', hr', same⟩ := listed resting
    obtain rfl : m = r := Option.some.inj (first.symm.trans hr)
    obtain rfl := k.unique (.listed resting hr')
    obtain resting' | removed' := m.isOpen_or_isRemoved
    · have taken : Taken earlier t₁ o m := .listed resting first
      exact .listed resting' ((remoteOf_congr taken.id).trans hr')
    · rw [same removed']
      exact .removed removed'
  | dropped resting buy absent =>
    obtain ⟨r, hr, -⟩ := listed resting
    rw [remoteOf_eq_none.mpr absent] at hr
    cases hr

theorem merge_of_takens (pairs : List.Forall₂ (Taken remote now) orders merged) :
    merge orders remote now = .ok merged := by
  induction pairs with
  | nil => rfl
  | cons first rest ih =>
    unfold merge at ih ⊢
    simp [List.mapM_cons, mergeOrder_of_taken first, ih, bind, Except.bind, pure, Except.pure]

theorem merge_eq_ok_iff :
    merge orders remote now = .ok merged ↔ List.Forall₂ (Taken remote now) orders merged :=
  ⟨takens_of_merge, merge_of_takens⟩

theorem merge_again (merges : merge orders remote t₁ = .ok merged) :
    merge merged remote t₂ = .ok merged := by
  rw [merge_eq_ok_iff, List.forall₂_same]
  intro o' mem
  obtain ⟨o, -, taken⟩ := exists_mem_of_forall₂ (takens_of_merge merges) mem
  exact taken.again

theorem merge_through (first : merge orders earlier t₁ = .ok mid)
    (direct : merge orders later t₃ = .ok merged)
    (listed : ∀ o ∈ orders, o.isOpen → ListedInBoth earlier later o) :
    merge mid later t₂ = .ok merged := by
  have takens := takens_of_merge first
  have takens' := takens_of_merge direct
  clear first direct
  rw [merge_eq_ok_iff]
  -- both merges start from the same orders, so their pairs are taken off together
  induction takens generalizing merged with
  | nil =>
    cases takens'
    exact .nil
  | cons head rest ih =>
    cases takens' with
    | cons head' rest' =>
      refine .cons (head.through head' (listed _ List.mem_cons_self)) (ih ?_ rest')
      exact fun o mem => listed o (List.mem_cons_of_mem _ mem)

theorem countAutoCancelled_eq_zero
    (listed : ∀ o ∈ orders, o.isOpen → (remoteOf remote o).isSome) :
    countAutoCancelled orders remote = 0 := by
  apply List.countP_eq_zero.mpr
  intro o mem
  rw [Bool.and_eq_true, Option.isNone_iff_eq_none]
  rintro ⟨resting, absent⟩
  have present := listed o mem resting
  rw [absent] at present
  cases present

/-- What is open after the earlier merge is listed for the later one. -/
theorem isSome_remoteOf_of_takens (takens : List.Forall₂ (Taken earlier now) orders mid)
    (listed : ∀ o ∈ orders, o.isOpen → ListedInBoth earlier later o) (mem : m ∈ mid)
    (resting : m.isOpen) : (remoteOf later m).isSome := by
  obtain ⟨o, memBefore, taken⟩ := exists_mem_of_forall₂ takens mem
  rw [remoteOf_congr taken.id]
  exact (listed o memBefore (taken.listed_of_isOpen resting).1).isSome

theorem remoteOf_of_merge (merges : merge orders remote now = .ok merged) (mem : o ∈ merged)
    (resting : o.isOpen) : remoteOf remote o = some o := by
  obtain ⟨c, -, taken⟩ := exists_mem_of_forall₂ (takens_of_merge merges) mem
  have again : Taken remote now o o := taken.again
  exact (again.listed_of_isOpen resting).2

theorem counts_again (merges : merge orders remote now = .ok merged) :
    countAutoCancelled merged remote = 0 ∧ countNewlySettled merged remote = 0 := by
  constructor
  · apply countAutoCancelled_eq_zero
    intro o mem resting
    rw [remoteOf_of_merge merges mem resting]
    rfl
  · apply List.countP_eq_zero.mpr
    intro o mem
    rw [Bool.and_eq_true]
    rintro ⟨resting, settled⟩
    rw [remoteOf_of_merge merges mem resting] at settled
    simp [Order.isSettled_eq_false resting] at settled

/-- An order is seen settled for the first time by the one merge or by the other. -/
theorem newlySettled_of_taken (taken : Taken earlier now o m)
    (listed : o.isOpen → ListedInBoth earlier later o) :
    (if o.isOpen && (remoteOf later o).any Order.isSettled then 1 else 0) =
      (if o.isOpen && (remoteOf earlier o).any Order.isSettled then 1 else 0) +
        if m.isOpen && (remoteOf later m).any Order.isSettled then 1 else 0 := by
  obtain resting | removed := o.isOpen_or_isRemoved
  · obtain ⟨r, hr, -, r', hr', same⟩ := listed resting
    obtain rfl := taken.unique (.listed resting hr)
    rw [remoteOf_congr taken.id, Option.mem_def.mp hr, Option.mem_def.mp hr', resting]
    simp only [Bool.true_and, Option.any_some]
    -- if the earlier version is open, only the later one counts, else they are the same
    obtain resting' | removed' := m.isOpen_or_isRemoved
    · have unsettled : m.isSettled = false := Order.isSettled_eq_false resting'
      simp [resting', unsettled]
    · simp [same removed', Order.isOpen, removed']
  · obtain rfl := taken.unique (.removed removed)
    simp [Order.isOpen, removed]

theorem countNewlySettled_through (takens : List.Forall₂ (Taken earlier now) orders mid)
    (listed : ∀ o ∈ orders, o.isOpen → ListedInBoth earlier later o) :
    countNewlySettled orders later =
      countNewlySettled orders earlier + countNewlySettled mid later := by
  induction takens with
  | nil => rfl
  | cons taken rest ih =>
    have head := newlySettled_of_taken taken (listed _ List.mem_cons_self)
    have tail := ih fun o mem => listed o (List.mem_cons_of_mem _ mem)
    unfold countNewlySettled at tail ⊢
    rw [List.countP_cons, List.countP_cons, List.countP_cons, tail, head]
    omega

/-- The exchange's first version of every open order that it has a version of is on the order's
side. -/
def KeepsSides (orders remote : List Order) : Prop :=
  ∀ o ∈ orders, o.isOpen → ∀ r ∈ remoteOf remote o, r.side = o.side

instance : Decidable (KeepsSides orders remote) := by
  unfold KeepsSides
  infer_instance

/-- An exchange that shows the latest sell shows it also after the orders were taken over from a
list that leaves them on their sides. -/
theorem LatestShown.of_takens (shown : LatestShown orders later)
    (takens : List.Forall₂ (Taken earlier now) orders mid) (sides : KeepsSides orders earlier) :
    LatestShown mid later := by
  intro latest last sell resting
  obtain ⟨o, lastBefore, taken⟩ := exists_getLast?_of_forall₂ takens last
  obtain ⟨restingBefore, first⟩ := taken.listed_of_isOpen resting
  -- what is an open sell now was one before, so that the exchange's list had to end with it
  have side := sides o (List.mem_of_getLast? lastBefore) restingBefore latest first
  rw [taken.id]
  exact shown o lastBefore (side.symm.trans sell) restingBefore

/-- What comes of a reconciliation once the list is taken over: its report, unless more is reserved
than held. -/
def answer (l : Ledger) (report : Report) : Outcome Report :=
  if l.isOvercommitted then l.desync.map .error else .ok (.ok report)

/-- A report is given because nothing is short, so that any report would have been given. -/
theorem answer_of_report {report report' : Report} (h : l.answer report = .ok (.ok report'))
    (other : Report) : report' = report ∧ l.answer other = .ok (.ok other) := by
  unfold answer at h ⊢
  split at h
  · cases hd : l.desync with
    | error fault => simp [hd, Except.map] at h
    | ok failure => simp [hd, Except.map] at h
  · next within =>
    cases h
    exact ⟨rfl, if_neg within⟩

theorem answer_of_failure {report : Report} {failure : Failure}
    (h : l.answer report = .ok (.error failure)) (other : Report) :
    l.answer other = .ok (.error failure) := by
  unfold answer at h ⊢
  split at h
  · next excess => rwa [if_pos excess]
  · cases h

/-- What a reconciliation that takes over the list reports unless it fails. -/
def reportOf (orders remote merged : List Order) : Report where
  autoCancelled := countAutoCancelled orders remote
  newlySettled := countNewlySettled orders remote
  stillOpen := merged.countP Order.isOpen

theorem reconcile_eq (l : Ledger) (shown : LatestShown l.orders remote)
    (merges : merge l.orders remote now = .ok merged) (fits : (l.withOrders merged).isOk) :
    l.reconcile remote now =
      (l.exactOver merged, (l.exactOver merged).answer (reportOf l.orders remote merged)) := by
  have commits : l.commits remote now := commits_iff.mpr ⟨shown, merged, merges, fits⟩
  obtain ⟨merged', merges', ledger, result⟩ := reconcile_of_commits commits
  obtain rfl : merged = merged' := Except.ok.inj (merges.symm.trans merges')
  exact Prod.ext ledger result

/-- Of a ledger that has taken over a list, the next reconciliation sees the endowment and the
orders. -/
theorem reconcile_exactOver (l : Ledger) (shown : LatestShown mid remote)
    (merges : merge mid remote now = .ok merged) (fits : (l.withOrders merged).isOk) :
    (l.exactOver mid).reconcile remote now =
      (l.exactOver merged, (l.exactOver merged).answer (reportOf mid remote merged)) :=
  reconcile_eq (l.exactOver mid) shown merges fits

/-- A reconciliation that takes over a list which leaves the open orders on their sides is followed,
with the same list at any other time, by one that leaves the ledger exactly as it is and comes to
the same: to a report of nothing new and as many open orders, or to the same amounts that are
free. -/
theorem reconcile_same_list_again (t₂ : Timestamp) (sides : KeepsSides l.orders remote)
    (took : TookOver (l.reconcile remote t₁).2) :
    let l' := (l.reconcile remote t₁).1
    (l'.reconcile remote t₂).1 = l' ∧
      (∀ report, (l.reconcile remote t₁).2 = .ok (.ok report) →
        (l'.reconcile remote t₂).2 = .ok (.ok
          { autoCancelled := 0, newlySettled := 0, stillOpen := report.stillOpen })) ∧
      ∀ credit inventory,
        (l.reconcile remote t₁).2 = .ok (.error (.balanceDesync credit inventory)) →
          (l'.reconcile remote t₂).2 = .ok (.error (.balanceDesync credit inventory)) := by
  obtain ⟨shown, merged, merges, fits⟩ := commits_iff.mp (commits_of_tookOver took)
  have shownAgain : LatestShown merged remote := shown.of_takens (takens_of_merge merges) sides
  have first := reconcile_eq l shown merges fits
  have mergesAgain : merge merged remote t₂ = .ok merged := merge_again merges
  have second := reconcile_exactOver l shownAgain mergesAgain fits
  obtain ⟨cancelled, settled⟩ := counts_again merges
  intro l'
  rw [show l' = l.exactOver merged from congrArg Prod.fst first, first, second]
  refine ⟨rfl, ?_, ?_⟩
  · intro report h
    obtain ⟨rfl, given⟩ := answer_of_report h (reportOf merged remote merged)
    rw [given, reportOf, cancelled, settled]
    rfl
  · intro credit inventory h
    exact answer_of_failure h _

/-- Of a buy and two sells, the exchange has dropped the buy and settled the first sell. Once that
is taken over, a minute later nothing is new. -/
theorem nothing_new_a_minute_later :
    let buy := Order.placed 1 .buy 1 90 .epoch
    let sell := Order.placed 2 .sell 4 120 .epoch
    let sold := { sell with trade := some ⟨10, 4, 125, .epoch⟩, closedAt := some .epoch }
    let latest := Order.placed 3 .sell 2 130 .epoch
    let l := { new 1000 10 with orders := [buy, sell, latest] }
    let minuteLater := { Timestamp.epoch with minuteOfDay := 1 }
    let l' := (l.reconcile [sold, latest] .epoch).1
    KeepsSides l.orders [sold, latest] ∧
      (l.reconcile [sold, latest] .epoch).2 = .ok (.ok ⟨1, 1, 1⟩) ∧
      l'.reconcile [sold, latest] minuteLater = (l', .ok (.ok ⟨0, 0, 1⟩)) := by
  intro buy sell sold latest l minuteLater l'
  have sides : KeepsSides l.orders [sold, latest] := by decide
  have report : (l.reconcile [sold, latest] .epoch).2 = .ok (.ok ⟨1, 1, 1⟩) := by decide
  obtain ⟨ledger, again, -⟩ := reconcile_same_list_again minuteLater sides (.inl ⟨_, report⟩)
  exact ⟨sides, report, Prod.ext ledger (again _ report)⟩

-- A buy that comes back as a sell is the latest sell from then on, so that the sides matter.
example :
    let l := (new 1000 10).recordPlaced (.placed 1 .buy 2 100 .epoch)
    let remote := [.placed 1 .sell 2 100 .epoch, .placed 2 .buy 1 90 .epoch]
    let l' := (l.reconcile remote .epoch).1
    (l.reconcile remote .epoch).2 = .ok (.ok ⟨0, 0, 1⟩) ∧
      (l'.reconcile remote .epoch).2 = .ok (.error (.orderNotReflected 1 (some 2))) := by
  decide

/-- A reconciliation with a later list makes up for one with an earlier list that was missed: after
both, the ledger and the amounts that are free are the same as after the later one alone, and so is
the report, but for the orders that the earlier one has seen settled already. -/
theorem reconcile_later_list_alone (t₂ : Timestamp)
    (listed : ∀ o ∈ l.orders, o.isOpen → ListedInBoth earlier later o)
    (tookEarlier : TookOver (l.reconcile earlier t₁).2)
    (tookLater : TookOver (l.reconcile later t₃).2) :
    let l' := (l.reconcile earlier t₁).1
    (l'.reconcile later t₂).1 = (l.reconcile later t₃).1 ∧
      (∀ report, (l.reconcile later t₃).2 = .ok (.ok report) →
        report.newlySettled = countNewlySettled l.orders later ∧
        (l'.reconcile later t₂).2 = .ok (.ok
          { report with newlySettled := countNewlySettled l'.orders later })) ∧
      (∀ credit inventory,
        (l.reconcile later t₃).2 = .ok (.error (.balanceDesync credit inventory)) →
          (l'.reconcile later t₂).2 = .ok (.error (.balanceDesync credit inventory))) ∧
      (∀ report, (l.reconcile earlier t₁).2 = .ok (.ok report) →
        report.newlySettled = countNewlySettled l.orders earlier) ∧
      countNewlySettled l.orders earlier + countNewlySettled l'.orders later =
        countNewlySettled l.orders later := by
  obtain ⟨shownEarlier, mid, merges, fits⟩ := commits_iff.mp (commits_of_tookOver tookEarlier)
  obtain ⟨shown, merged, merges', fits'⟩ := commits_iff.mp (commits_of_tookOver tookLater)
  have takens := takens_of_merge merges
  have sides : KeepsSides l.orders earlier := by
    intro o mem resting r' found
    obtain ⟨r, hr, side, -⟩ := listed o mem resting
    rwa [← Option.mem_unique found hr] at side
  have mergesAfter : merge mid later t₂ = .ok merged := merge_through merges merges' listed
  have first := reconcile_eq l shownEarlier merges fits
  have direct := reconcile_eq l shown merges' fits'
  have second := reconcile_exactOver l (shown.of_takens takens sides) mergesAfter fits'
  have settled := countNewlySettled_through takens listed
  have cancelled : countAutoCancelled mid later = countAutoCancelled l.orders later := by
    rw [countAutoCancelled_eq_zero fun o mem resting => (listed o mem resting).isSome,
      countAutoCancelled_eq_zero fun o => isSome_remoteOf_of_takens takens listed]
  intro l'
  have ledger : l' = l.exactOver mid := congrArg Prod.fst first
  rw [ledger, first, second, direct]
  refine ⟨rfl, ?_, ?_, ?_, settled.symm⟩
  · intro report h
    obtain ⟨rfl, given⟩ := answer_of_report h (reportOf mid later merged)
    refine ⟨rfl, ?_⟩
    rw [given, reportOf, cancelled]
    rfl
  · intro credit inventory h
    exact answer_of_failure h _
  · intro report h
    obtain ⟨rfl, -⟩ := answer_of_report h (reportOf mid later merged)
    rfl

/-- Of two buys and a sell, the exchange settles one buy and then the other. A ledger that missed
the first list sees both settled at once. -/
theorem both_settled_at_once :
    let buy := Order.placed 1 .buy 2 100 .epoch
    let other := Order.placed 2 .buy 3 110 .epoch
    let sell := Order.placed 3 .sell 4 120 .epoch
    let bought := { buy with trade := some ⟨10, 2, 95, .epoch⟩, closedAt := some .epoch }
    let boughtToo := { other with trade := some ⟨11, 3, 110, .epoch⟩, closedAt := some .epoch }
    let l := { new 1000 10 with orders := [buy, other, sell] }
    let l' := (l.reconcile [bought, other, sell] .epoch).1
    (∀ o ∈ l.orders, o.isOpen →
      ListedInBoth [bought, other, sell] [bought, boughtToo, sell] o) ∧
    (l.reconcile [bought, other, sell] .epoch).2 = .ok (.ok ⟨0, 1, 2⟩) ∧
    (l.reconcile [bought, boughtToo, sell] .epoch).2 = .ok (.ok ⟨0, 2, 1⟩) ∧
    (l'.reconcile [bought, boughtToo, sell] .epoch).2 = .ok (.ok ⟨0, 1, 1⟩) ∧
    (l'.reconcile [bought, boughtToo, sell] .epoch).1 =
      (l.reconcile [bought, boughtToo, sell] .epoch).1 := by
  intro buy other sell bought boughtToo l l'
  have listed : ∀ o ∈ l.orders, o.isOpen →
      ListedInBoth [bought, other, sell] [bought, boughtToo, sell] o := by decide
  have earlier : (l.reconcile [bought, other, sell] .epoch).2 = .ok (.ok ⟨0, 1, 2⟩) := by decide
  have later : (l.reconcile [bought, boughtToo, sell] .epoch).2 = .ok (.ok ⟨0, 2, 1⟩) := by decide
  obtain ⟨ledger, report, -⟩ :=
    reconcile_later_list_alone .epoch listed (.inl ⟨_, earlier⟩) (.inl ⟨_, later⟩)
  exact ⟨listed, earlier, later, (report _ later).2.trans (by decide), ledger⟩

end Ledger

end TradingLoad
