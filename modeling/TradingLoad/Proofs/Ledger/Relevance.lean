import TradingLoad.Proofs.Ledger.Evolution

namespace TradingLoad

namespace Ledger

variable {orders remote remote' : List Order} {now : Timestamp} {o : Order} {l : Ledger}

theorem latestUnreflected_congr
    (last : remote.getLast?.map Order.id = remote'.getLast?.map Order.id) :
    latestUnreflected orders remote = latestUnreflected orders remote' := by
  simp only [latestUnreflected, last]

theorem mergeOrder_congr (same : o.isOpen → remoteOf remote o = remoteOf remote' o) :
    mergeOrder remote now o = mergeOrder remote' now o := by
  obtain resting | removed := o.isOpen_or_isRemoved
  · simp only [mergeOrder, same resting]
  · simp [mergeOrder, removed]

theorem merge_congr (same : ∀ o ∈ orders, o.isOpen → remoteOf remote o = remoteOf remote' o) :
    merge orders remote now = merge orders remote' now := by
  induction orders with
  | nil => rfl
  | cons o os ih =>
    have head : mergeOrder remote now o = mergeOrder remote' now o :=
      mergeOrder_congr (same o List.mem_cons_self)
    have tail := ih fun c mem => same c (List.mem_cons_of_mem _ mem)
    unfold merge at tail ⊢
    rw [List.mapM_cons, List.mapM_cons, head, tail]

theorem counts_congr (same : ∀ o ∈ orders, o.isOpen → remoteOf remote o = remoteOf remote' o) :
    countAutoCancelled orders remote = countAutoCancelled orders remote' ∧
      countNewlySettled orders remote = countNewlySettled orders remote' := by
  constructor <;>
  · apply List.countP_congr
    intro o mem
    obtain resting | removed := o.isOpen_or_isRemoved
    · rw [same o mem resting]
    · simp [Order.isOpen, removed]

theorem reconcile_congr (l : Ledger) (now : Timestamp)
    (last : remote.getLast?.map Order.id = remote'.getLast?.map Order.id)
    (same : ∀ o ∈ l.orders, o.isOpen → remoteOf remote o = remoteOf remote' o) :
    l.reconcile remote now = l.reconcile remote' now := by
  have reflected : latestUnreflected l.orders remote = latestUnreflected l.orders remote' :=
    latestUnreflected_congr last
  have merged : merge l.orders remote now = merge l.orders remote' now := merge_congr same
  obtain ⟨cancelled, settled⟩ := counts_congr same
  unfold reconcile
  rw [reflected, merged, cancelled, settled]

theorem remoteOf_of_perm (perm : remote.Perm remote') (nodup : (remote.map Order.id).Nodup) :
    remoteOf remote o = remoteOf remote' o := by
  cases found : remoteOf remote o with
  | none =>
    unfold remoteOf at found ⊢
    rw [List.find?_eq_none] at found
    symm
    rw [List.find?_eq_none]
    exact fun r mem => found r (perm.mem_iff.mpr mem)
  | some r =>
    have mem : r ∈ remote' := perm.mem_iff.mp (List.mem_of_find?_eq_some found)
    have id : r.id = o.id := by simpa [remoteOf] using List.find?_some found
    exact (remoteOf_of_mem ((perm.map Order.id).nodup_iff.mp nodup) mem id).symm

/-- The entry has the identifier of an open order. All others are foreign or of orders that are
removed already. -/
def concerns (l : Ledger) (r : Order) : Bool := l.orders.any fun o => o.isOpen && o.id = r.id

theorem remoteOf_filter (mem : o ∈ l.orders) (resting : o.isOpen) :
    remoteOf (remote.filter l.concerns) o = remoteOf remote o := by
  unfold remoteOf
  rw [List.find?_filter]
  congr
  funext r
  have concerned : r.id = o.id → l.concerns r := by
    intro id
    exact List.any_eq_true.mpr ⟨o, mem, by simp [resting, id]⟩
  simpa using concerned

/-- Two lists lead to the same ledger and the same result if they end with the same identifier and
show the same first version of every open order, if any: in particular if no identifier is listed
twice and the one is the other in a different order, or if they differ only in entries that concern
no open order, as long as the last entry is the same. -/
theorem reconcile_sees_own_orders (l : Ledger) (remote remote' : List Order) (now : Timestamp) :
    (remote.getLast?.map Order.id = remote'.getLast?.map Order.id →
      (∀ o ∈ l.orders, o.isOpen →
        remote.find? (·.id = o.id) = remote'.find? (·.id = o.id)) →
      l.reconcile remote now = l.reconcile remote' now) ∧
    (remote.getLast? = remote'.getLast? → remote.Perm remote' → (remote.map Order.id).Nodup →
      l.reconcile remote now = l.reconcile remote' now) ∧
    (remote.getLast? = remote'.getLast? → remote.filter l.concerns = remote'.filter l.concerns →
      l.reconcile remote now = l.reconcile remote' now) := by
  refine ⟨reconcile_congr l now, ?_, ?_⟩
  · intro last perm nodup
    apply reconcile_congr l now (congrArg _ last)
    exact fun o _ _ => remoteOf_of_perm perm nodup
  · intro last same
    apply reconcile_congr l now (congrArg _ last)
    intro o mem resting
    rw [← remoteOf_filter mem resting, same, remoteOf_filter mem resting]

/-- An investor has bought once, and bids and offers again. It makes no difference that the exchange
lists a stranger's order and shows the first buy as if it were open, in which order it lists the
buys, or that it repeats the offer at another amount. -/
theorem reconcile_past_strangers :
    let buy := Order.placed 1 .buy 2 100 .epoch
    let bought := { buy with trade := some ⟨10, 2, 95, .epoch⟩, closedAt := some .epoch }
    let bid := Order.placed 2 .buy 1 90 .epoch
    let offer := Order.placed 3 .sell 4 120 .epoch
    let stranger := Order.placed 9 .sell 7 1 .epoch
    let l := { new 1000 10 with orders := [bought, bid, offer] }
    let result := l.reconcile [bid, buy, offer] .epoch
    result.2 = .ok (.ok ⟨0, 0, 2⟩) ∧ l.reconcile [stranger, bid, offer] .epoch = result ∧
      l.reconcile [buy, bid, offer] .epoch = result ∧
      l.reconcile [bid, buy, offer, { offer with amount := 5 }] .epoch = result := by
  intro buy bought bid offer stranger l result
  obtain ⟨-, -, foreign⟩ :=
    reconcile_sees_own_orders l [stranger, bid, offer] [bid, buy, offer] .epoch
  obtain ⟨-, reordered, -⟩ :=
    reconcile_sees_own_orders l [buy, bid, offer] [bid, buy, offer] .epoch
  obtain ⟨repeated, -, -⟩ :=
    reconcile_sees_own_orders l [bid, buy, offer, { offer with amount := 5 }] [bid, buy, offer]
      .epoch
  refine ⟨by decide, foreign rfl (by decide), ?_, repeated (by decide) (by decide)⟩
  exact reordered rfl (List.Perm.swap bid buy [offer]) (by decide)

end Ledger

end TradingLoad
