import TradingLoad.Proofs.Ledger.Merging

namespace TradingLoad

namespace Ledger

variable {orders remote merged : List Order} {now : Timestamp} {o o' : Order} {failure : Failure}

/-- If the latest order is an open sell, the exchange's list ends with an order of that
identifier. -/
def LatestShown (orders remote : List Order) : Prop :=
  ∀ latest, orders.getLast? = some latest → latest.side = .sell → latest.isOpen →
    remote.getLast?.map Order.id = some latest.id

theorem latestUnreflected_of_latest {latest : Order} (last : orders.getLast? = some latest)
    (sell : latest.side = .sell) (resting : latest.isOpen) :
    latestUnreflected orders remote =
      if remote.getLast?.map Order.id = some latest.id then none
      else some (.orderNotReflected latest.id (remote.getLast?.map Order.id)) := by
  unfold latestUnreflected
  rw [last]
  simp [sell, resting]

theorem latestUnreflected_of_shown (shown : LatestShown orders remote) :
    latestUnreflected orders remote = none := by
  cases last : orders.getLast? with
  | none => simp [latestUnreflected, last]
  | some latest =>
    by_cases concerned : latest.side = .sell ∧ latest.isOpen
    · obtain ⟨sell, resting⟩ := concerned
      rw [latestUnreflected_of_latest last sell resting, if_pos (shown latest last sell resting)]
    · unfold latestUnreflected
      rw [last]
      simp [concerned]

theorem latestUnreflected_of_not_shown (hidden : ¬ LatestShown orders remote) :
    ∃ latest, orders.getLast? = some latest ∧ latest.side = .sell ∧ latest.isOpen ∧
      remote.getLast?.map Order.id ≠ some latest.id ∧ latestUnreflected orders remote =
        some (.orderNotReflected latest.id (remote.getLast?.map Order.id)) := by
  unfold LatestShown at hidden
  push Not at hidden
  obtain ⟨latest, last, sell, resting, other⟩ := hidden
  refine ⟨latest, last, sell, resting, other, ?_⟩
  rw [latestUnreflected_of_latest last sell resting, if_neg other]

theorem latestUnreflected_eq_none_iff :
    latestUnreflected orders remote = none ↔ LatestShown orders remote := by
  refine ⟨?_, latestUnreflected_of_shown⟩
  intro reflected
  by_contra hidden
  obtain ⟨latest, -, -, -, -, unreflected⟩ := latestUnreflected_of_not_shown hidden
  rw [reflected] at unreflected
  cases unreflected

/-- An open sell of which the exchange's list has no version. -/
def isMissing (remote : List Order) (o : Order) : Bool :=
  o.isOpen && o.side = .sell && remote.all fun r => r.id ≠ o.id

/-- What a reconciliation makes of an order: a removed one stays as it is, of an open one the first
version in the exchange's list is taken, and an open buy without a version was cancelled. -/
inductive Taken (remote : List Order) (now : Timestamp) : Order → Order → Prop where
  | removed {o : Order} (removed : o.isRemoved) : Taken remote now o o
  | listed {o r : Order} (resting : o.isOpen) (first : remote.find? (·.id = o.id) = some r) :
    Taken remote now o r
  | dropped {o : Order} (resting : o.isOpen) (buy : o.side = .buy)
    (absent : ∀ r ∈ remote, r.id ≠ o.id) : Taken remote now o { o with closedAt := some now }

theorem remoteOf_eq_none : remoteOf remote o = none ↔ ∀ r ∈ remote, r.id ≠ o.id := by
  simp [remoteOf, List.find?_eq_none]

theorem isMissing_iff : isMissing remote o ↔
    o.isOpen ∧ o.side = .sell ∧ ∀ r ∈ remote, r.id ≠ o.id := by
  simp [isMissing, and_assoc]

theorem isRemoved_eq_false (resting : o.isOpen) : o.isRemoved = false := by
  simpa [Order.isOpen] using resting

theorem taken_of_mergeOrder (h : mergeOrder remote now o = .ok o') : Taken remote now o o' := by
  unfold mergeOrder at h
  split at h
  · next removed =>
    obtain rfl := Except.ok.inj h
    exact .removed removed
  · next unremoved =>
    have resting : o.isOpen := by simpa [Order.isOpen] using unremoved
    split at h
    · next found =>
      obtain rfl := Except.ok.inj h
      exact .listed resting found
    · cases h
    · next absent buy =>
      obtain rfl := Except.ok.inj h
      exact .dropped resting buy (remoteOf_eq_none.mp absent)

theorem mergeOrder_of_taken (h : Taken remote now o o') : mergeOrder remote now o = .ok o' := by
  cases h with
  | removed removed => simp [mergeOrder, removed]
  | listed resting first =>
    have found : remoteOf remote o = some o' := first
    simp [mergeOrder, isRemoved_eq_false resting, found]
  | dropped resting buy absent =>
    have none : remoteOf remote o = none := remoteOf_eq_none.mpr absent
    simp [mergeOrder, isRemoved_eq_false resting, none, buy]

theorem mergeOrder_eq_ok_iff : mergeOrder remote now o = .ok o' ↔ Taken remote now o o' :=
  ⟨taken_of_mergeOrder, mergeOrder_of_taken⟩

theorem Taken.id (h : Taken remote now o o') : o'.id = o.id :=
  id_of_mergeOrder (mergeOrder_of_taken h)

theorem Taken.unique {c : Order} (h : Taken remote now o o') (k : Taken remote now o c) : o' = c :=
  Except.ok.inj ((mergeOrder_of_taken h).symm.trans (mergeOrder_of_taken k))

theorem mergeOrder_eq_error_iff : mergeOrder remote now o = .error failure ↔
    isMissing remote o ∧ failure = .sellOrderVanished o.id := by
  constructor
  · intro h
    refine ⟨?_, mergeOrder_eq_error h⟩
    unfold mergeOrder at h
    split at h
    · cases h
    · next unremoved =>
      split at h
      · cases h
      · next absent sell =>
        rw [isMissing_iff]
        exact ⟨by simpa [Order.isOpen] using unremoved, sell, remoteOf_eq_none.mp absent⟩
      · cases h
  · rintro ⟨missing, rfl⟩
    obtain ⟨resting, sell, absent⟩ := isMissing_iff.mp missing
    have none : remoteOf remote o = none := remoteOf_eq_none.mpr absent
    simp [mergeOrder, isRemoved_eq_false resting, none, sell]

theorem takens_of_merge (h : merge orders remote now = .ok merged) :
    List.Forall₂ (Taken remote now) orders merged :=
  (forall₂_of_merge h).imp fun _ _ => mergeOrder_eq_ok_iff.mp

/-- The first sell that is missing ends the merge. -/
theorem merge_of_missing (missing : orders.find? (isMissing remote) = some o) :
    merge orders remote now = .error (.sellOrderVanished o.id) := by
  induction orders with
  | nil => cases missing
  | cons c cs ih =>
    by_cases first : isMissing remote c
    · rw [List.find?_cons_of_pos first] at missing
      obtain rfl := Option.some.inj missing
      have fails : mergeOrder remote now c = .error (.sellOrderVanished c.id) :=
        mergeOrder_eq_error_iff.mpr ⟨first, rfl⟩
      simp [merge, List.mapM_cons, fails, bind, Except.bind]
    · rw [List.find?_cons_of_neg first] at missing
      have later := ih missing
      unfold merge at later ⊢
      cases merges : mergeOrder remote now c with
      | error failure => exact absurd (mergeOrder_eq_error_iff.mp merges).1 first
      | ok c' => simp [List.mapM_cons, merges, later, bind, Except.bind]

theorem merge_of_none_missing (complete : orders.find? (isMissing remote) = none) :
    ∃ merged, merge orders remote now = .ok merged := by
  induction orders with
  | nil => exact ⟨[], rfl⟩
  | cons c cs ih =>
    rw [List.find?_cons] at complete
    split at complete
    · cases complete
    · next present =>
      obtain ⟨cs', rest⟩ := ih complete
      cases merges : mergeOrder remote now c with
      | error failure => simp [(mergeOrder_eq_error_iff.mp merges).1] at present
      | ok c' =>
        refine ⟨c' :: cs', ?_⟩
        unfold merge at rest ⊢
        simp [List.mapM_cons, merges, rest, bind, Except.bind, pure, Except.pure]

/-- A balance or a reservation over the merged orders is out of range, so that they are not taken
over. -/
def BreaksOff (l : Ledger) (remote : List Order) (now : Timestamp) : Prop :=
  ∃ merged fault, merge l.orders remote now = .ok merged ∧ l.withOrders merged = .error fault

variable {l : Ledger}

theorem commits_iff : l.commits remote now ↔ LatestShown l.orders remote ∧
    ∃ merged, merge l.orders remote now = .ok merged ∧ (l.withOrders merged).isOk := by
  unfold commits
  rw [Bool.and_eq_true, Option.isNone_iff_eq_none, latestUnreflected_eq_none_iff]
  cases merge l.orders remote now with
  | error failure => simp
  | ok merged => simp

theorem reconcile_of_not_shown (now : Timestamp) (hidden : ¬ LatestShown l.orders remote) :
    ∃ latest, l.orders.getLast? = some latest ∧ latest.side = .sell ∧ latest.isOpen ∧
      remote.getLast?.map Order.id ≠ some latest.id ∧ l.reconcile remote now =
        (l, .ok (.error (.orderNotReflected latest.id (remote.getLast?.map Order.id)))) := by
  obtain ⟨latest, last, sell, resting, other, unreflected⟩ := latestUnreflected_of_not_shown hidden
  refine ⟨latest, last, sell, resting, other, ?_⟩
  simp [reconcile, unreflected]

theorem reconcile_of_missing (now : Timestamp) (shown : LatestShown l.orders remote)
    (missing : l.orders.find? (isMissing remote) = some o) :
    l.reconcile remote now = (l, .ok (.error (.sellOrderVanished o.id))) := by
  have vanished : merge l.orders remote now = .error (.sellOrderVanished o.id) :=
    merge_of_missing missing
  simp [reconcile, latestUnreflected_of_shown shown, vanished]

theorem reconcile_of_breaksOff (shown : LatestShown l.orders remote)
    (breaks : l.BreaksOff remote now) : ∃ fault, l.reconcile remote now = (l, .error fault) := by
  obtain ⟨merged, fault, merges, faults⟩ := breaks
  refine ⟨fault, ?_⟩
  simp [reconcile, latestUnreflected_of_shown shown, merges, faults]

theorem commits_of_complete (shown : LatestShown l.orders remote)
    (complete : l.orders.find? (isMissing remote) = none) (fits : ¬ l.BreaksOff remote now) :
    l.commits remote now := by
  obtain ⟨merged, merges⟩ : ∃ merged, merge l.orders remote now = .ok merged :=
    merge_of_none_missing complete
  refine commits_iff.mpr ⟨shown, merged, merges, ?_⟩
  cases balances : l.withOrders merged with
  | error fault => exact absurd ⟨merged, fault, merges, balances⟩ fits
  | ok committed => rfl

theorem isOvercommitted_iff :
    l.isOvercommitted ↔ l.credit < l.reservedCredit ∨ l.inventory < l.reservedInventory := by
  simp [isOvercommitted]

/-- What comes of a reconciliation once the list is taken over: the amounts that are free tell. -/
inductive Verdict (l : Ledger) : Outcome Report → Prop where
  | enough (report : Report) (credit : l.reservedCredit ≤ l.credit)
    (inventory : l.reservedInventory ≤ l.inventory) : Verdict l (.ok (.ok report))
  | short (excess : l.credit < l.reservedCredit ∨ l.inventory < l.reservedInventory)
    (credit : InInt64 (l.credit - l.reservedCredit))
    (inventory : InInt64 (l.inventory - l.reservedInventory)) :
    Verdict l (.ok (.error
      (.balanceDesync (l.credit - l.reservedCredit) (l.inventory - l.reservedInventory))))
  /-- The amount that is missing is itself out of range. -/
  | beyond (fault : Fault)
    (excess : l.credit < l.reservedCredit ∨ l.inventory < l.reservedInventory)
    (large : ¬ (InInt64 (l.credit - l.reservedCredit) ∧
      InInt64 (l.inventory - l.reservedInventory))) : Verdict l (.error fault)

theorem verdict_of_desync (excess : l.isOvercommitted) : Verdict l (l.desync.map .error) := by
  rw [isOvercommitted_iff] at excess
  by_cases credit : InInt64 (l.credit - l.reservedCredit)
  · have free : l.availableCredit = .ok (l.credit - l.reservedCredit) :=
      Checked.sub_eq_ok_iff.mpr ⟨credit, rfl⟩
    by_cases inventory : InInt64 (l.inventory - l.reservedInventory)
    · have left : l.availableInventory = .ok (l.inventory - l.reservedInventory) :=
        Checked.sub_eq_ok_iff.mpr ⟨inventory, rfl⟩
      unfold desync
      rw [free, left]
      exact .short excess credit inventory
    · have large : l.availableInventory = .error .subOverflow := if_neg inventory
      unfold desync
      rw [free, large]
      exact .beyond _ excess fun fits => inventory fits.2
  · have large : l.availableCredit = .error .subOverflow := if_neg credit
    unfold desync
    rw [large]
    exact .beyond _ excess fun fits => credit fits.1

theorem Verdict.desync_iff {result : Outcome Report} (verdict : Verdict l result)
    (credit inventory : Int) : result = .ok (.error (.balanceDesync credit inventory)) ↔
      (l.credit < l.reservedCredit ∨ l.inventory < l.reservedInventory) ∧
        (l.availableCredit = .ok credit ∧ l.availableInventory = .ok inventory) := by
  unfold availableCredit availableInventory
  rw [Checked.sub_eq_ok_iff, Checked.sub_eq_ok_iff]
  cases verdict with
  | enough report credit inventory =>
    constructor
    · intro h
      cases h
    · rintro ⟨excess, -⟩
      omega
  | short excess credit inventory =>
    constructor
    · intro h
      cases h
      exact ⟨excess, ⟨credit, rfl⟩, inventory, rfl⟩
    · rintro ⟨-, ⟨-, rfl⟩, -, rfl⟩
      rfl
  | beyond fault excess large =>
    constructor
    · intro h
      cases h
    · rintro ⟨-, ⟨credit, -⟩, inventory, -⟩
      exact absurd ⟨credit, inventory⟩ large

theorem Verdict.report_iff {result : Outcome Report} (verdict : Verdict l result) :
    (∃ report, result = .ok (.ok report)) ↔
      0 ≤ l.credit - l.reservedCredit ∧ 0 ≤ l.inventory - l.reservedInventory := by
  cases verdict with
  | enough report credit inventory =>
    exact ⟨fun _ => ⟨by omega, by omega⟩, fun _ => ⟨report, rfl⟩⟩
  | short excess | beyond _ excess =>
    constructor
    · rintro ⟨report, h⟩
      cases h
    · intro free
      omega

/-- A ledger that takes over the exchange's list has every order taken over. -/
theorem reconcile_of_complete (shown : LatestShown l.orders remote)
    (complete : l.orders.find? (isMissing remote) = none) (fits : ¬ l.BreaksOff remote now) :
    List.Forall₂ (Taken remote now) l.orders (l.reconcile remote now).1.orders ∧
      Verdict (l.reconcile remote now).1 (l.reconcile remote now).2 := by
  obtain ⟨merged, merges, ledger, result⟩ :=
    reconcile_of_commits (commits_of_complete shown complete fits)
  rw [ledger, result]
  refine ⟨takens_of_merge merges, ?_⟩
  split
  · next excess => exact verdict_of_desync excess
  · next within =>
    rw [isOvercommitted_iff] at within
    exact .enough _ (by omega) (by omega)

/-- A reconciliation that reports an order as not reflected or vanished, or breaks off over a number
out of range, changes nothing. If the latest sell is shown, the first open sell that is missing is
reported as vanished. Else the list is taken over order by order, in the old order; what is reserved
and what is held then decide between a report and a failure that tells how much is free, which takes
that a number can tell it. -/
theorem reconcile_all_or_nothing (l : Ledger) (remote : List Order) (now : Timestamp) :
    let l' := (l.reconcile remote now).1
    let result := (l.reconcile remote now).2
    ((∃ expected actual, result = .ok (.error (.orderNotReflected expected actual))) ∨
      (∃ id, result = .ok (.error (.sellOrderVanished id))) ∨ l.BreaksOff remote now → l' = l) ∧
    (LatestShown l.orders remote → ∀ id, result = .ok (.error (.sellOrderVanished id)) ↔
      (l.orders.find? (isMissing remote)).map Order.id = some id) ∧
    (LatestShown l.orders remote → l.orders.find? (isMissing remote) = none →
      ¬ l.BreaksOff remote now →
      (l'.orders.map Order.id = l.orders.map Order.id ∧
        List.Forall₂ (Taken remote now) l.orders l'.orders) ∧
      (∀ credit inventory, result = .ok (.error (.balanceDesync credit inventory)) ↔
        (l'.credit < l'.reservedCredit ∨ l'.inventory < l'.reservedInventory) ∧
        (l'.availableCredit = .ok credit ∧ l'.availableInventory = .ok inventory)) ∧
      ((∃ report, result = .ok (.ok report)) ↔
        0 ≤ l'.credit - l'.reservedCredit ∧ 0 ≤ l'.inventory - l'.reservedInventory)) := by
  intro l' result
  by_cases shown : LatestShown l.orders remote
  swap
  · obtain ⟨latest, -, -, -, -, exit⟩ := reconcile_of_not_shown now shown
    exact ⟨fun _ => congrArg Prod.fst exit, fun h => absurd h shown, fun h => absurd h shown⟩
  cases missing : l.orders.find? (isMissing remote) with
  | some o =>
    have exit := reconcile_of_missing now shown missing
    have vanished : result = .ok (.error (.sellOrderVanished o.id)) := congrArg Prod.snd exit
    refine ⟨fun _ => congrArg Prod.fst exit, ?_, ?_⟩
    · intro _ id
      rw [vanished]
      simp
    · intro _ complete
      cases complete
  | none =>
    by_cases breaks : l.BreaksOff remote now
    · obtain ⟨fault, exit⟩ := reconcile_of_breaksOff shown breaks
      have faults : result = .error fault := congrArg Prod.snd exit
      refine ⟨fun _ => congrArg Prod.fst exit, ?_, fun _ _ fits => absurd breaks fits⟩
      intro _ id
      rw [faults]
      simp
    · obtain ⟨taken, verdict⟩ := reconcile_of_complete shown missing breaks
      have ids : l'.orders.map Order.id = l.orders.map Order.id := ids_reconcile l remote now
      change List.Forall₂ (Taken remote now) l.orders l'.orders at taken
      change Verdict l' result at verdict
      generalize result = result at verdict
      refine ⟨?_, ?_, fun _ _ _ => ⟨⟨ids, taken⟩, ?_, ?_⟩⟩
      · rintro (⟨_, _, rfl⟩ | ⟨_, rfl⟩ | breaksOff)
        · cases verdict
        · cases verdict
        · exact absurd breaksOff breaks
      · intro _ id
        cases verdict <;> simp
      · exact verdict.desync_iff
      · exact verdict.report_iff

/-- A buy at the highest price there is, and another one. -/
def dearBuys : Ledger :=
  ((new 0 0).recordPlaced (.placed 1 .buy 1 0x7fffffffffffffff .epoch)).recordPlaced
    (.placed 2 .buy 1 2 .epoch)

/-- The exchange has settled the first one at its limit. -/
def dearSettlement : List Order :=
  [{ Order.placed 1 .buy 1 0x7fffffffffffffff .epoch with
      trade := some ⟨1, 1, 0x7fffffffffffffff, .epoch⟩, closedAt := some .epoch },
    .placed 2 .buy 1 2 .epoch]

theorem not_breaksOff_of_ok {l' : Ledger} (merges : merge l.orders remote now = .ok merged)
    (balances : l.withOrders merged = .ok l') : ¬ l.BreaksOff remote now := by
  rintro ⟨merged', fault, merges', faults⟩
  rw [merges] at merges'
  obtain rfl := Except.ok.inj merges'
  rw [balances] at faults
  cases faults

/-- The list is taken over and more is reserved than held, but what is free is out of range, and the
reconciliation ends in a fault. -/
theorem no_desync_of_dear_buys :
    LatestShown dearBuys.orders dearSettlement ∧
      dearBuys.orders.find? (isMissing dearSettlement) = none ∧
      ¬ dearBuys.BreaksOff dearSettlement .epoch ∧
      let l' := (dearBuys.reconcile dearSettlement .epoch).1
      let result := (dearBuys.reconcile dearSettlement .epoch).2
      l'.credit < l'.reservedCredit ∧ result = .error .subOverflow ∧
        ¬ ∃ credit inventory, result = .ok (.error (.balanceDesync credit inventory)) := by
  have faults : (dearBuys.reconcile dearSettlement .epoch).2 = .error .subOverflow := by decide
  refine ⟨?_, by decide, ?_, by decide, faults, ?_⟩
  · intro latest last sell
    obtain rfl := Option.some.inj last
    cases sell
  · have merges : merge dearBuys.orders dearSettlement .epoch = .ok dearSettlement := by decide
    have balances : dearBuys.withOrders dearSettlement =
        .ok (dearBuys.exactOver dearSettlement) := by decide
    exact not_breaksOff_of_ok merges balances
  · rintro ⟨credit, inventory, desync⟩
    rw [faults] at desync
    cases desync

/-- A buy that the exchange has dropped is closed, a sell that it has settled is taken over, and
with ten units to begin with nothing is short. -/
theorem taken_over_with_dropped_buy :
    let buy := Order.placed 1 .buy 1 90 .epoch
    let sell := Order.placed 2 .sell 4 120 .epoch
    let sold := { sell with trade := some ⟨10, 4, 125, .epoch⟩, closedAt := some .epoch }
    let l := ((new 1000 10).recordPlaced buy).recordPlaced sell
    LatestShown l.orders [sold] ∧ l.orders.find? (isMissing [sold]) = none ∧
      ¬ l.BreaksOff [sold] .epoch ∧
      (l.reconcile [sold] .epoch).1.orders = [{ buy with closedAt := some .epoch }, sold] ∧
      ∃ report, (l.reconcile [sold] .epoch).2 = .ok (.ok report) := by
  intro buy sell sold l
  have shown : LatestShown l.orders [sold] := by
    intro latest last _ _
    obtain rfl := Option.some.inj last
    rfl
  have complete : l.orders.find? (isMissing [sold]) = none := by decide
  have fits : ¬ l.BreaksOff [sold] .epoch := by
    have merges : merge l.orders [sold] .epoch =
        .ok [{ buy with closedAt := some .epoch }, sold] := by decide
    have balances : l.withOrders [{ buy with closedAt := some .epoch }, sold] =
        .ok (l.exactOver [{ buy with closedAt := some .epoch }, sold]) := by decide
    exact not_breaksOff_of_ok merges balances
  obtain ⟨-, -, taken⟩ := reconcile_all_or_nothing l [sold] .epoch
  obtain ⟨-, -, success⟩ := taken shown complete fits
  exact ⟨shown, complete, fits, by decide, success.mpr (by decide)⟩

theorem shown_of_unreflected {expected : Int} {actual : Option Int}
    (h : (l.reconcile remote now).2 = .ok (.error (.orderNotReflected expected actual))) :
    ¬ LatestShown l.orders remote := by
  intro shown
  cases missing : l.orders.find? (isMissing remote) with
  | some o =>
    rw [reconcile_of_missing now shown missing] at h
    cases h
  | none =>
    by_cases breaks : l.BreaksOff remote now
    · obtain ⟨fault, exit⟩ := reconcile_of_breaksOff shown breaks
      rw [exit] at h
      cases h
    · obtain ⟨-, verdict⟩ := reconcile_of_complete shown missing breaks
      rw [h] at verdict
      cases verdict

/-- An order that the exchange shows is reported as not reflected exactly if it is an open sell and
the exchange lists an order of another identifier behind it. -/
theorem unreflected_iff_behind {latest : Order} (last : l.orders.getLast? = some latest)
    (listed : ∃ r ∈ remote, r.id = latest.id) (expected : Int) (actual : Option Int) :
    (l.reconcile remote now).2 = .ok (.error (.orderNotReflected expected actual)) ↔
      latest.side = .sell ∧ latest.isOpen ∧ expected = latest.id ∧
        ∃ r, remote.getLast? = some r ∧ r.id ≠ latest.id ∧ actual = some r.id := by
  constructor
  · intro h
    obtain ⟨latest', last', sell, resting, other, exit⟩ :=
      reconcile_of_not_shown now (shown_of_unreflected h)
    rw [last] at last'
    obtain rfl := Option.some.inj last'
    rw [exit] at h
    cases h
    obtain ⟨r, mem, -⟩ := listed
    obtain ⟨ending, ends⟩ : ∃ ending, remote.getLast? = some ending :=
      Option.isSome_iff_exists.mp (by simpa using List.ne_nil_of_mem mem)
    refine ⟨sell, resting, rfl, ending, ends, ?_, ?_⟩
    · intro same
      rw [ends] at other
      exact other (congrArg some same)
    · rw [ends]
      rfl
  · rintro ⟨sell, resting, rfl, r, ends, other, rfl⟩
    have hidden : ¬ LatestShown l.orders remote := by
      intro shown
      have same := shown latest last sell resting
      rw [ends] at same
      exact other (Option.some.inj same)
    obtain ⟨latest', last', -, -, -, exit⟩ := reconcile_of_not_shown now hidden
    rw [last] at last'
    obtain rfl := Option.some.inj last'
    rw [exit, ends]
    rfl

/-- Three units on offer; the exchange lists the offer, and a buy of the same account of which the
investor has had no reply. -/
theorem unreflected_behind_lost_reply :
    let sell := Order.placed 1 .sell 3 110 .epoch
    let remote := [sell, .placed 2 .buy 1 100 .epoch]
    let l := (new 1000 10).recordPlaced sell
    (∃ r ∈ remote, r.id = sell.id) ∧ l.orders.getLast? = some sell ∧
      (l.reconcile remote .epoch).2 = .ok (.error (.orderNotReflected 1 (some 2))) ∧
      (Failure.orderNotReflected 1 (some 2)).isConsistencyViolation := by
  decide

/-- With the offer at the end of the list, nothing is reported. -/
theorem reflected_at_the_end :
    let sell := Order.placed 1 .sell 3 110 .epoch
    let remote := [Order.placed 2 .buy 1 100 .epoch, sell]
    let l := (new 1000 10).recordPlaced sell
    l.orders.getLast? = some sell ∧ (∃ r ∈ remote, r.id = sell.id) ∧
      ∀ expected actual,
        (l.reconcile remote .epoch).2 ≠ .ok (.error (.orderNotReflected expected actual)) := by
  intro sell remote l
  have last : l.orders.getLast? = some sell := rfl
  have listed : ∃ r ∈ remote, r.id = sell.id := ⟨sell, by decide, rfl⟩
  refine ⟨last, listed, ?_⟩
  intro expected actual unreflected
  obtain ⟨-, -, -, r, ends, other, -⟩ :=
    (unreflected_iff_behind last listed expected actual).mp unreflected
  obtain rfl := Option.some.inj ends
  exact other rfl

end Ledger

end TradingLoad
