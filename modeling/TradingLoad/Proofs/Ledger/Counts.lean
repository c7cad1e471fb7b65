import TradingLoad.Proofs.Ledger.Permanence

namespace TradingLoad

namespace Ledger

variable {orders remote merged : List Order} {now : Timestamp} {o o' : Order} {l : Ledger}
  {op : Operation} {ops : List Operation}

/-- What a reconciliation reports when it succeeds; nothing else gives a report. -/
def report? (l : Ledger) : Operation → Option Report
  | .place _ | .close _ _ => none
  | .reconcile remote now =>
    match (l.reconcile remote now).2 with
    | .ok (.ok report) => some report
    | _ => none

/-- The reports of a history, the latest first. -/
def reports (l : Ledger) : List Operation → List Report
  | [] => []
  | op :: ops => ((l.after ops).report? op).toList ++ l.reports ops

/-- Neither a fault nor more reserved than held. -/
def isClear : Outcome Report → Bool
  | .error _ | .ok (.error (.balanceDesync _ _)) => false
  | _ => true

/-- The operation does not end in a fault and does not find more reserved than held. -/
def endsClear (l : Ledger) : Operation → Bool
  | .place _ | .close _ _ => true
  | .reconcile remote now => isClear (l.reconcile remote now).2

/-- No operation of a history ends in a fault or finds more reserved than held. -/
def runsClear (l : Ledger) : List Operation → Bool
  | [] => true
  | op :: ops => l.runsClear ops && (l.after ops).endsClear op

theorem not_isClear_desync (l : Ledger) : isClear (l.desync.map .error) = false := by
  unfold desync
  cases l.availableCredit with
  | error fault => rfl
  | ok credit =>
    cases l.availableInventory with
    | error fault => rfl
    | ok inventory => rfl

/-- A reconciliation either takes over the exchange's list and reports what it has counted, or keeps
the ledger and reports nothing. -/
theorem reconcile_of_isClear (clear : isClear (l.reconcile remote now).2) :
    (∃ merged, merge l.orders remote now = .ok merged ∧
      (l.reconcile remote now).1.orders = merged ∧
      l.report? (.reconcile remote now) = some
        { autoCancelled := countAutoCancelled l.orders remote
          newlySettled := countNewlySettled l.orders remote
          stillOpen := merged.countP Order.isOpen }) ∨
    (l.reconcile remote now).1 = l ∧ l.report? (.reconcile remote now) = none := by
  cases commits : l.commits remote now with
  | false =>
    obtain ⟨kept, ⟨_, result⟩ | ⟨_, _, result⟩ | ⟨_, result⟩⟩ := reconcile_of_not_commits commits
    all_goals exact .inr ⟨kept, by simp [report?, result]⟩
  | true =>
    obtain ⟨merged, merges, ledger, result⟩ := reconcile_of_commits commits
    split at result
    · rw [result, not_isClear_desync] at clear
      cases clear
    · refine .inl ⟨merged, merges, ?_, ?_⟩
      · rw [ledger]
        rfl
      · simp only [report?, result]

theorem stillOpen_eq {report : Report} (given : l.report? op = some report) :
    report.stillOpen = (l.perform op).openCount := by
  cases op with
  | place | close => cases given
  | reconcile remote now =>
    have clear : isClear (l.reconcile remote now).2 := by
      simp only [report?] at given
      split at given
      · next result =>
        rw [result]
        rfl
      · cases given
    obtain ⟨merged, -, taken, report⟩ | ⟨-, none⟩ := reconcile_of_isClear clear
    · rw [report] at given
      obtain rfl := Option.some.inj given
      simp [perform, openCount, taken]
    · rw [none] at given
      cases given

theorem countP_isSettled_closeFirst (id : Int) (at_ : Timestamp) (orders : List Order) :
    (closeFirst id at_ orders).countP Order.isSettled = orders.countP Order.isSettled := by
  induction orders with
  | nil => rfl
  | cons o os ih =>
    rw [closeFirst]
    split
    · rfl
    · simp only [List.countP_cons, ih]

/-- An order is settled after a merge if it was so before, or if it is newly settled. -/
theorem settled_of_taken (taken : Taken remote now o o') :
    (if o'.isSettled then 1 else 0) = (if o.isSettled then 1 else 0) +
      if o.isOpen && (remoteOf remote o).any Order.isSettled then 1 else 0 := by
  cases taken with
  | removed removed => simp [Order.isOpen, removed]
  | listed resting first =>
    have unsettled : o.isSettled = false := Order.isSettled_eq_false resting
    have found : remoteOf remote o = some o' := first
    simp [unsettled, resting, found]
  | dropped resting buy absent =>
    have none : remoteOf remote o = none := remoteOf_eq_none.mpr absent
    rw [none, Option.any_none, Bool.and_false]
    rfl

theorem countP_isSettled_merge (takens : List.Forall₂ (Taken remote now) orders merged) :
    merged.countP Order.isSettled =
      orders.countP Order.isSettled + countNewlySettled orders remote := by
  induction takens with
  | nil => rfl
  | cons taken rest ih =>
    have head := settled_of_taken taken
    unfold countNewlySettled at ih ⊢
    rw [List.countP_cons, List.countP_cons, List.countP_cons, ih, head]
    omega

/-- An operation that places no settled order settles as many orders as it reports. -/
theorem countP_isSettled_perform (placed : ∀ o, op = .place o → o.isOpen) (clear : l.endsClear op) :
    (l.perform op).orders.countP Order.isSettled = l.orders.countP Order.isSettled +
      ((l.report? op).toList.map Report.newlySettled).sum := by
  cases op with
  | place o =>
    have resting : o.isOpen := placed o rfl
    have unsettled : o.isSettled = false := Order.isSettled_eq_false resting
    simp [perform, recordPlaced, report?, unsettled]
  | close id at_ => simp [perform, markClosed, report?, countP_isSettled_closeFirst]
  | reconcile remote now =>
    obtain ⟨merged, merges, taken, report⟩ | ⟨kept, none⟩ := reconcile_of_isClear clear
    · have settled := countP_isSettled_merge (takens_of_merge merges)
      simp [perform, taken, report, settled]
    · simp [perform, kept, none]

/-- The first order is open and not in the exchange's list, and has become the second, which is
closed. -/
def isDropped (remote : List Order) : Order × Order → Bool
  | (o, o') => o.isOpen && (remote.all fun r => r.id ≠ o.id) && o'.isClosed

/-- The places of the orders that the operation closes because the exchange does not list them. -/
def dropped (l : Ledger) : Operation → List Nat
  | .place _ | .close _ _ => []
  | .reconcile remote now =>
    (l.orders.zip (l.reconcile remote now).1.orders).findIdxs (isDropped remote)

/-- The places of all orders that were closed in a history because the exchange did not list them,
the latest first. -/
def allDropped (l : Ledger) : List Operation → List Nat
  | [] => []
  | op :: ops => (l.after ops).dropped op ++ l.allDropped ops

theorem isDropped_iff :
    isDropped remote (o, o') ↔ (o.isOpen ∧ ∀ r ∈ remote, r.id ≠ o.id) ∧ o'.isClosed := by
  simp [isDropped]

theorem not_isDropped_self (remote : List Order) (o : Order) : ¬ isDropped remote (o, o) := by
  rw [isDropped_iff]
  rintro ⟨⟨resting, -⟩, closed⟩
  simp [Order.isClosed_eq_false resting] at closed

theorem isDropped_of_taken (taken : Taken remote now o o') :
    isDropped remote (o, o') = (o.isOpen && (remoteOf remote o).isNone) := by
  cases taken with
  | removed removed => simp [isDropped, Order.isOpen, removed]
  | listed resting first =>
    have found : remoteOf remote o = some o' := first
    have listed : ¬ ∀ r ∈ remote, r.id ≠ o.id := by
      rw [← remoteOf_eq_none, found]
      exact Option.some_ne_none o'
    rw [found, Option.isNone_some, Bool.and_false, ← Bool.not_eq_true, isDropped_iff]
    exact fun dropped => listed dropped.1.2
  | dropped resting buy absent =>
    have none : remoteOf remote o = none := remoteOf_eq_none.mpr absent
    have closed : isDropped remote (o, { o with closedAt := some now }) :=
      isDropped_iff.mpr ⟨⟨resting, absent⟩, rfl⟩
    rw [closed, none, resting]
    rfl

theorem countP_isDropped (takens : List.Forall₂ (Taken remote now) orders merged) :
    (orders.zip merged).countP (isDropped remote) = countAutoCancelled orders remote := by
  induction takens with
  | nil => rfl
  | cons taken rest ih =>
    unfold countAutoCancelled at ih ⊢
    rw [List.zip_cons_cons, List.countP_cons, List.countP_cons, ih, isDropped_of_taken taken]

theorem dropped_of_kept (kept : (l.reconcile remote now).1 = l) :
    l.dropped (.reconcile remote now) = [] := by
  simp only [dropped, kept]
  rw [List.findIdxs_eq_nil_iff]
  rintro ⟨o, o'⟩ mem
  obtain ⟨i, here⟩ := List.mem_iff_getElem?.mp mem
  obtain ⟨first, second⟩ := List.getElem?_zip_eq_some.mp here
  obtain rfl : o = o' := Option.some.inj (first.symm.trans second)
  exact Bool.not_eq_true _ ▸ not_isDropped_self remote o

theorem length_dropped (clear : l.endsClear op) :
    (l.dropped op).length = ((l.report? op).toList.map Report.autoCancelled).sum := by
  cases op with
  | place | close => rfl
  | reconcile remote now =>
    obtain ⟨merged, merges, taken, report⟩ | ⟨kept, none⟩ := reconcile_of_isClear clear
    · have counted := countP_isDropped (takens_of_merge merges)
      simp [dropped, taken, report, counted]
    · simp [dropped_of_kept kept, none]

theorem exists_of_mem_dropped {i : Nat} (mem : i ∈ l.dropped (.reconcile remote now)) :
    ∃ o o', l.orders[i]? = some o ∧ (l.reconcile remote now).1.orders[i]? = some o' ∧
      isDropped remote (o, o') := by
  obtain ⟨within, dropped⟩ := List.mem_findIdxs_iff_exists_getElem_pos.mp mem
  obtain ⟨first, second⟩ := List.getElem?_zip_eq_some.mp (List.getElem?_eq_getElem within)
  exact ⟨_, _, first, second, dropped⟩

/-- Where an order is dropped, one was open, and a closed buy that has not traded is left. -/
theorem of_mem_dropped {i : Nat} (mem : i ∈ l.dropped op) :
    (∃ o, l.orders[i]? = some o ∧ o.isOpen) ∧
      ∃ o, (l.perform op).orders[i]? = some o ∧ o.side = .buy ∧ o.isClosed ∧ o.trade = none := by
  cases op with
  | place | close => cases mem
  | reconcile remote now =>
    obtain ⟨o, o', first, second, dropped⟩ := exists_of_mem_dropped mem
    obtain ⟨⟨resting, absent⟩, closed⟩ := isDropped_iff.mp dropped
    refine ⟨⟨o, first, resting⟩, o', second, ?_⟩
    obtain kept | ⟨merged, merges, ledger⟩ := ledger_of_reconcile l remote now
    · rw [dropped_of_kept kept] at mem
      cases mem
    · rw [ledger] at second
      obtain ⟨c, here, taken⟩ := exists_getElem?_of_forall₂ (takens_of_merge merges) second
      obtain rfl : o = c := Option.some.inj (first.symm.trans here)
      cases taken with
      | removed removed => simp [Order.isOpen, removed] at resting
      | listed _ found =>
        have present : o'.id = o.id := by simpa using List.find?_some found
        exact absurd present (absent o' (List.mem_of_find?_eq_some found))
      | dropped _ buy _ =>
        have untraded : o.trade = none := Order.trade_of_isOpen resting
        exact ⟨buy, closed, untraded⟩

theorem of_mem_allDropped {i : Nat} (mem : i ∈ l.allDropped ops) :
    ∃ o, (l.after ops).orders[i]? = some o ∧ o.side = .buy ∧ o.isClosed ∧ o.trade = none := by
  induction ops with
  | nil => cases mem
  | cons op ops ih =>
    obtain now | earlier := List.mem_append.mp mem
    · exact (of_mem_dropped now).2
    · obtain ⟨o, here, buy, closed, untraded⟩ := ih earlier
      obtain ⟨o', here', lives⟩ := liveOn_perform (l.after ops) op i o here
      obtain ⟨removed, same⟩ := lives.removed (Order.isRemoved_of_isClosed closed)
      have side : o'.side = .buy := by
        rw [same]
        exact buy
      have trade : o'.trade = none := by
        rw [same]
        exact untraded
      refine ⟨o', here', side, ?_, trade⟩
      simpa [Order.isRemoved, Order.isSettled, trade] using removed

theorem nodup_allDropped (l : Ledger) (ops : List Operation) : (l.allDropped ops).Nodup := by
  induction ops with
  | nil => exact List.nodup_nil
  | cons op ops ih =>
    have once : ((l.after ops).dropped op).Nodup := by
      cases op with
      | place | close => exact List.nodup_nil
      | reconcile remote now => exact List.nodup_findIdxs
    refine List.nodup_append.mpr ⟨once, ih, ?_⟩
    rintro i now j earlier rfl
    -- an order that was dropped is closed, and what is dropped is open
    obtain ⟨⟨o, here, resting⟩, -⟩ := of_mem_dropped now
    obtain ⟨o', here', -, closed, -⟩ := of_mem_allDropped earlier
    obtain rfl : o = o' := Option.some.inj (here.symm.trans here')
    simp [Order.isClosed_eq_false resting] at closed

theorem sum_newlySettled (clear : l.runsClear ops) (placed : ∀ o, .place o ∈ ops → o.isOpen) :
    (l.after ops).orders.countP Order.isSettled =
      l.orders.countP Order.isSettled + ((l.reports ops).map Report.newlySettled).sum := by
  induction ops with
  | nil => rfl
  | cons op ops ih =>
    obtain ⟨before, last⟩ := Bool.and_eq_true_iff.mp clear
    have placedBefore := ih before fun o mem => placed o (List.mem_cons_of_mem _ mem)
    have step := countP_isSettled_perform (fun o h => placed o (h ▸ List.mem_cons_self)) last
    rw [after, step, placedBefore, reports, List.map_append, List.sum_append]
    omega

theorem sum_autoCancelled (clear : l.runsClear ops) :
    ((l.reports ops).map Report.autoCancelled).sum = (l.allDropped ops).length := by
  induction ops with
  | nil => rfl
  | cons op ops ih =>
    obtain ⟨before, last⟩ := Bool.and_eq_true_iff.mp clear
    have step := length_dropped last
    rw [reports, List.map_append, List.sum_append, ih before, allDropped, List.length_append, step]

/-- While orders are placed open, and no reconciliation ends in a fault or finds more reserved than
held: all the orders counted as newly settled are as many as are settled in the ledger; all those
counted as cancelled are as many as the exchange has dropped, at no place two of them, and each of
them is a closed buy that has not traded; and every report counts as open what is open right after
it. -/
theorem reports_count_once {credit inventory : Int} (clear : (new credit inventory).runsClear ops)
    (placed : ∀ o, .place o ∈ ops → o.isOpen) :
    let start := new credit inventory
    let l := start.after ops
    ((start.reports ops).map Report.newlySettled).sum = l.orders.countP Order.isSettled ∧
    ((start.reports ops).map Report.autoCancelled).sum = (start.allDropped ops).length ∧
    (start.allDropped ops).Nodup ∧
    (∀ i ∈ start.allDropped ops,
      ∃ o, l.orders[i]? = some o ∧ o.side = .buy ∧ o.isClosed ∧ o.trade = none) ∧
    ∀ later op earlier report, ops = later ++ op :: earlier →
      (start.after earlier).report? op = some report →
        report.stillOpen = (start.after (op :: earlier)).openCount := by
  intro start l
  refine ⟨?_, sum_autoCancelled clear, nodup_allDropped start ops, ?_, ?_⟩
  · have settled := sum_newlySettled clear placed
    exact (settled.trans (Nat.zero_add _)).symm
  · exact fun i mem => of_mem_allDropped mem
  · intro later op earlier report _ given
    exact stillOpen_eq given

/-- Of two buys and two sells, the exchange settles one of each and drops the other buy. A list on
which the other sell is missing and a second look at the first list are not counted. -/
theorem four_orders_counted_once :
    let buy := Order.placed 1 .buy 1 90 .epoch
    let sell := Order.placed 2 .sell 4 120 .epoch
    let other := Order.placed 3 .buy 2 100 .epoch
    let latest := Order.placed 4 .sell 2 130 .epoch
    let sold := { sell with trade := some ⟨10, 4, 125, .epoch⟩, closedAt := some .epoch }
    let bought := { other with trade := some ⟨11, 2, 95, .epoch⟩, closedAt := some .epoch }
    let ops : List Operation :=
      [.reconcile [sold, bought, latest] .epoch, .close 1 .epoch, .reconcile [sold, bought] .epoch,
        .reconcile [sold, other, latest] .epoch, .place latest, .place other, .place sell,
        .place buy]
    let start := new 1000 10
    start.runsClear ops ∧ start.reports ops = [⟨0, 1, 1⟩, ⟨1, 1, 2⟩] ∧ start.allDropped ops = [0] ∧
      (start.after ops).orders.countP Order.isSettled = 2 ∧
      ∃ o, (start.after ops).orders[0]? = some o ∧ o.side = .buy ∧ o.isClosed := by
  intro buy sell other latest sold bought ops start
  have clear : start.runsClear ops := by decide
  have placed : ∀ o, .place o ∈ ops → o.isOpen := by
    simp [ops, buy, sell, other, latest, Order.placed, Order.isOpen, Order.isRemoved,
      Order.isSettled, Order.isClosed]
  have reports : start.reports ops = [⟨0, 1, 1⟩, ⟨1, 1, 2⟩] := by decide
  have dropped : start.allDropped ops = [0] := by decide
  obtain ⟨settled, -, -, closed, -⟩ := reports_count_once clear placed
  obtain ⟨o, here, buy, closed, -⟩ := closed 0 (dropped ▸ List.mem_cons_self)
  exact ⟨clear, reports, dropped, settled.symm.trans (by rw [reports]; rfl), o, here, buy, closed⟩

end Ledger

end TradingLoad
