import TradingLoad.Proofs.Run.Alone
import TradingLoad.Proofs.Run.OrderCap

namespace TradingLoad

variable {σ : Type} {env : Environment σ}

/-- The moments at which orders were accepted, the latest first. -/
def placements (record : List Dealing) : List Nat := record.filterMap Dealing.placedAt?

@[simp] theorem placements_asked (now : Nat) (c : Call) (record : List Dealing) :
    placements (.asked now c :: record) = placements record := rfl

theorem placements_replied (now : Nat) (c : Call) (r : c.Reply) (record : List Dealing) :
    placements (.replied now c r :: record) =
      (Dealing.placedAt? (.replied now c r)).toList ++ placements record := by
  unfold placements
  cases h : Dealing.placedAt? (.replied now c r) with
  | none => exact List.filterMap_cons_none h
  | some t => exact List.filterMap_cons_some h

/-- A ledger tracks the orders that were accepted. -/
theorem length_orders_after (env : Environment σ) (l : Ledger) (record : List Dealing) :
    (l.after (operations env record)).orders.length =
      l.orders.length + (placements record).length := by
  induction record with
  | nil => rfl
  | cons dealing record ih =>
    cases dealing with
    | asked now c => exact ih
    | retired => exact ih
    | replied now c r =>
      rw [operations_replied, placements_replied, Ledger.after_append, List.length_append]
      generalize hl : l.after (operations env record) = l' at ih ⊢
      have one (op : Ledger.Operation) := congrArg List.length (l'.ids_perform op)
      simp only [List.length_append, List.length_map] at one
      cases c with
      | addOrder side amount price =>
        cases r with
        | error failure => exact ih.trans (by simp [Dealing.placedAt?])
        | ok o =>
          refine (one (.place o)).trans ?_
          simp only [Dealing.placedAt?, Option.toList_some, List.length_singleton]
          omega
      | deleteOrder id =>
        cases r with
        | error failure => exact ih.trans (by simp [Dealing.placedAt?])
        | ok _ => exact (one (.close id _)).trans (by simp [Dealing.placedAt?, ih])
      | getOrders =>
        cases r with
        | error failure => exact ih.trans (by simp [Dealing.placedAt?])
        | ok orders => exact (one (.reconcile orders _)).trans (by simp [Dealing.placedAt?, ih])
      | _ => cases r <;> exact ih.trans (by simp [Dealing.placedAt?])

namespace Investor

variable {inv inv' : Investor}

/-- An order is decided only if it is due. -/
theorem due_of_decide {retired : Bool} {now : Nat} (h : inv.decide retired now = .ok inv')
    (changed : inv' ≠ inv) : inv.isPlacementDue now := by
  by_contra early
  have waits : inv.isPlacementDue now = false := by simpa using early
  have held : (retired || !inv.isPlacementDue now) = true := by simp [waits]
  rw [decide, if_pos held] at h
  exact changed (Except.ok.inj h).symm

theorem lastOrderAt_receive (inv : Investor) (now : Nat) (at_ : Timestamp) (c : Call)
    (r : c.Reply) :
    (inv.receive now at_ c r).1.lastOrderAt =
      (Dealing.placedAt? (.replied now c r)).or inv.lastOrderAt := by
  cases c with
  | info cursor =>
    cases r with
    | error failure => rfl
    | ok info =>
      simp only [receive, observe]
      split <;> rfl
  | _ => cases r <;> rfl

end Investor

theorem Dealing.placedAt?_replied (now : Nat) (c : Call) (r : c.Reply) :
    Dealing.placedAt? (.replied now c r) = none ∨
      c.task.isPlacement ∧ Dealing.placedAt? (.replied now c r) = some now := by
  cases c with
  | addOrder side amount price =>
    cases r with
    | error failure => exact .inl rfl
    | ok o => exact .inr ⟨rfl, rfl⟩
  | _ => cases r <;> exact .inl rfl

namespace World

variable {deadline : Deadline} {w u : World (Recorded σ)} {task : Task}
  {ending : Checked Composite.Ending}

/-- A task accepts no order, or it is a placement and does so at its end. -/
theorem placements_comesTo (h : ComesTo env.recorded deadline w task u ending) :
    (placements u.exchange.record = placements w.exchange.record ∧
      u.investor.lastOrderAt = w.investor.lastOrderAt) ∨
    task.isPlacement ∧ placements u.exchange.record = u.now :: placements w.exchange.record ∧
      u.investor.lastOrderAt = some u.now := by
  cases h with
  | late waits => exact .inl ⟨by rw [waits.exchange], by rw [waits.investor]⟩
  | faults waits => exact .inl ⟨by rw [waits.exchange], by rw [waits.investor]⟩
  | @skips v investor score waits h =>
    obtain ⟨trader, pending, rfl⟩ := Investor.begin_eq_ok h
    exact .inl ⟨by rw [waits.exchange], by rw [waits.investor]⟩
  | @hangs v u c waits h asks =>
    refine .inl ⟨?_, ?_⟩
    · rw [asks.exchange, ← waits.exchange]
      rfl
    · rw [asks.investor, ← waits.investor]
      rfl
  | @answered v u c latency waits h takes comes now =>
    obtain ⟨-, rfl⟩ := Investor.begin_eq_ask h
    have investor : u.investor = w.investor := comes.investor.trans waits.investor
    rw [record_settle waits takes comes now, placements_replied, placements_asked]
    simp only [Course.settle_eq, Investor.lastOrderAt_receive, investor]
    rcases Dealing.placedAt?_replied u.now c (env.recorded.exchange.reply c u.exchange).1 with
      none | ⟨placement, accepted⟩
    · rw [none]
      exact .inl ⟨rfl, rfl⟩
    · rw [accepted]
      exact .inr ⟨placement, rfl, rfl⟩

/-- So far the orders on record were accepted an interval apart. -/
structure Spaced (env : Environment σ) (l : Ledger) (interval start : Nat)
    (w : World (Recorded σ)) : Prop where
  line : InLine env l w
  pace : w.investor.timing.orderUpdateIntervalMs = interval
  last : w.investor.lastOrderAt = (placements w.exchange.record).head?
  apart : (placements w.exchange.record).Pairwise fun later earlier => earlier + interval ≤ later
  within : ∀ t ∈ placements w.exchange.record, start ≤ t ∧ t ≤ w.now
  since : start ≤ w.now

/-- Whatever was accepted, an order may be accepted now. -/
def IsFree (interval : Nat) (w : World (Recorded σ)) : Prop :=
  ∀ t ∈ placements w.exchange.record, t + interval ≤ w.now

variable {l : Ledger} {interval start : Nat}

theorem Spaced.isFree_of_due (spaced : Spaced env l interval start w) (empty : l.orders = [])
    (due : w.investor.isPlacementDue w.now) : IsFree interval w := by
  have tracked : w.investor.ledger.orders.length = (placements w.exchange.record).length := by
    rw [spaced.line, length_orders_after, empty, List.length_nil, Nat.zero_add]
  have last := spaced.last
  have apart := spaced.apart
  unfold IsFree
  cases placed : placements w.exchange.record with
  | nil => simp
  | cons t rest =>
    rw [placed] at tracked last apart
    have tracks : w.investor.ledger.orders.isEmpty = false := by
      cases orders : w.investor.ledger.orders with
      | nil => simp [orders] at tracked
      | cons o os => rfl
    have latest : t + interval ≤ w.now := by
      simpa [Investor.isPlacementDue, tracks, last, spaced.pace] using due
    intro s mem
    rcases List.mem_cons.mp mem with rfl | earlier
    · exact latest
    · have gap := (List.pairwise_cons.mp apart).1 s earlier
      omega

theorem Spaced.waits {v : World (Recorded σ)} (spaced : Spaced env l interval start w)
    (waits : Waits deadline w v) : Spaced env l interval start v := by
  have passes := waits.passes
  have since := spaced.since
  refine ⟨?_, ?_, ?_, ?_, ?_, by omega⟩
  · show v.investor.ledger = _
    rw [waits.investor, waits.exchange]
    exact spaced.line
  · rw [waits.investor]
    exact spaced.pace
  · rw [waits.investor, waits.exchange]
    exact spaced.last
  · rw [waits.exchange]
    exact spaced.apart
  · rw [waits.exchange]
    intro t mem
    have before := spaced.within t mem
    omega

theorem Spaced.comesTo (spaced : Spaced env l interval start w)
    (free : task.isPlacement → IsFree interval w)
    (h : ComesTo env.recorded deadline w task u ending) : Spaced env l interval start u := by
  have passes := h.elapses.passes
  have since := spaced.since
  have timing : u.investor.timing = w.investor.timing :=
    h.keeps (fun _ _ _ => rfl) Investor.timing_receive
  have pace : u.investor.timing.orderUpdateIntervalMs = interval := by
    rw [timing]
    exact spaced.pace
  rcases placements_comesTo h with ⟨same, last⟩ | ⟨placement, more, last⟩
  · refine ⟨spaced.line.comesTo h, pace, ?_, ?_, ?_, by omega⟩
    · rw [last, same]
      exact spaced.last
    · rw [same]
      exact spaced.apart
    · rw [same]
      intro t mem
      have before := spaced.within t mem
      omega
  · refine ⟨spaced.line.comesTo h, pace, ?_, ?_, ?_, by omega⟩
    · rw [last, more]
      rfl
    · rw [more]
      apply List.pairwise_cons.mpr
      refine ⟨?_, spaced.apart⟩
      intro t mem
      have gap := free placement t mem
      omega
    · rw [more]
      intro t mem
      rcases List.mem_cons.mp mem with rfl | earlier
      · omega
      · have before := spaced.within t earlier
        omega

/-- The orders on record are spaced, and if a placement is to come, it may be accepted now. -/
structure Paced (env : Environment σ) (l : Ledger) (interval start : Nat)
    (w : World (Recorded σ)) (tasks : List Task) : Prop
    extends Spaced env l interval start w where
  orderly : Course.Orderly (⟨w, none, tasks⟩ : Course (Recorded σ))
  free : 0 < (tasks ++ w.investor.pending).countP Task.isPlacement → IsFree interval w

theorem Paced.isFree {tasks : List Task} (paced : Paced env l interval start w (task :: tasks))
    (placement : task.isPlacement) : IsFree interval w := by
  apply paced.free
  rw [List.cons_append, List.countP_cons_of_pos placement]
  exact Nat.succ_pos _

theorem orderly_runTask {tasks : List Task} {result : Except Failure Nat}
    (h : w.runTask env.recorded deadline task = (u, .ok (.ended result)))
    (orderly : Course.Orderly (⟨w, none, task :: tasks⟩ : Course (Recorded σ))) :
    Course.Orderly (⟨u, none, Course.remaining tasks result⟩ : Course (Recorded σ)) := by
  have steps : ∃ events, Course.Steps env.recorded (fun _ _ => False) ⟨w, none, task :: tasks⟩
      events ⟨u, none, Course.remaining tasks result⟩ := Course.steps_of_runTask h tasks
  obtain ⟨events, steps⟩ := steps
  exact Course.orderly_steps steps orderly

theorem IsFree.later (free : IsFree interval w)
    (same : placements u.exchange.record = placements w.exchange.record) (passes : w.now ≤ u.now) :
    IsFree interval u := by
  intro t mem
  rw [same] at mem
  have before := free t mem
  omega

/-- A task queues a placement only when an order may be accepted. -/
theorem Spaced.queued_comesTo (spaced : Spaced env l interval start w) (empty : l.orders = [])
    (h : ComesTo env.recorded deadline w task u ending) :
    u.investor.pending.countP Task.isPlacement = w.investor.pending.countP Task.isPlacement ∨
      IsFree interval u := by
  cases h with
  | late waits => exact .inl (by rw [waits.investor])
  | faults waits => exact .inl (by rw [waits.investor])
  | @skips v investor score waits h =>
    rcases (Investor.begin_eq_done h).2 with same | ⟨-, decides⟩
    · left
      show investor.pending.countP Task.isPlacement = _
      rw [same, waits.investor]
    · by_cases same : investor = v.investor
      · left
        show investor.pending.countP Task.isPlacement = _
        rw [same, waits.investor]
      · right
        have due := Investor.due_of_decide decides same
        exact (spaced.waits waits).isFree_of_due empty due
  | @hangs v u c waits h asks =>
    left
    rw [asks.investor, ← waits.investor]
    rfl
  | @answered v u c latency waits h takes comes now =>
    left
    rw [Course.settle_eq]
    simp only
    rw [Investor.placements_receive, comes.investor, ← waits.investor]
    rfl

/-- What a task leaves to do and to come does not include a placement that is not free. -/
theorem Paced.free_comesTo {tasks left : List Task}
    (paced : Paced env l interval start w (task :: tasks)) (empty : l.orders = [])
    (h : ComesTo env.recorded deadline w task u ending)
    (fewer : left.countP Task.isPlacement ≤ tasks.countP Task.isPlacement)
    (coming : 0 < (left ++ u.investor.pending).countP Task.isPlacement) : IsFree interval u := by
  rw [List.countP_append] at coming
  rcases paced.toSpaced.queued_comesTo empty h with same | free
  · rcases placements_comesTo h with ⟨none, -⟩ | ⟨placement, -⟩
    · have before : IsFree interval w := by
        apply paced.free
        rw [List.cons_append, List.countP_cons, List.countP_append]
        omega
      exact before.later none h.elapses.passes
    · -- behind the placement there is only its reconciliation and the decision
      have order : task.isOrder := by
        cases task with
        | addOrder side amount price => rfl
        | _ => cases placement
      obtain rfl := paced.orderly.agenda.after_order order
      have quiet : w.investor.pending.countP Task.isPlacement = 0 := by
        apply List.countP_eq_zero.mpr
        intro t mem
        rw [paced.orderly.updates (by simp [Course.isIdle]) t mem]
        simp [Task.isPlacement]
      have rest : List.countP Task.isPlacement [.updateOrders, .decision] = 0 := rfl
      omega
  · exact free

theorem Paced.runTask {tasks : List Task} {result : Except Failure Nat}
    (paced : Paced env l interval start w (task :: tasks)) (empty : l.orders = [])
    (h : w.runTask env.recorded deadline task = (u, .ok (.ended result))) :
    Paced env l interval start u (Course.remaining tasks result) := by
  have comes := comesTo_runTask env.recorded deadline w task
  rw [h] at comes
  have fewer : (Course.remaining tasks result).countP Task.isPlacement ≤
      tasks.countP Task.isPlacement := by
    cases result with
    | ok score => exact Nat.le_refl _
    | error failure => exact Nat.zero_le _
  exact ⟨paced.toSpaced.comesTo paced.isFree comes, orderly_runTask h paced.orderly,
    paced.free_comesTo empty comes fewer⟩

/-- Tasks keep the pace, and accept no more orders than there are placements among them. -/
theorem Paced.runTasks (deadline : Deadline) {r : Composite.Report} {tasks : List Task}
    {w : World (Recorded σ)} (paced : Paced env l interval start w tasks) (empty : l.orders = []) :
    let run := Composite.runTasks Task.name (World.runTask env.recorded deadline) r tasks w
    Spaced env l interval start run.1 ∧
      (∀ report, run.2 = .ok (some report) → Paced env l interval start run.1 []) ∧
      (placements run.1.exchange.record).length ≤
        (placements w.exchange.record).length + tasks.countP Task.isPlacement := by
  induction tasks generalizing r w with
  | nil => exact ⟨paced.toSpaced, fun _ _ => paced, Nat.le_refl _⟩
  | cons task tasks ih =>
    have comes := comesTo_runTask env.recorded deadline w task
    have spaced := paced.toSpaced.comesTo paced.isFree comes
    have fewer : (placements (World.runTask env.recorded deadline w task).1.exchange.record).length
        ≤ (placements w.exchange.record).length + [task].countP Task.isPlacement := by
      rcases placements_comesTo comes with ⟨same, -⟩ | ⟨placement, more, -⟩
      · rw [same]
        exact Nat.le_add_right _ _
      · rw [more, List.countP_cons_of_pos placement]
        exact Nat.le_refl _
    have first : [task].countP Task.isPlacement + tasks.countP Task.isPlacement =
        (task :: tasks).countP Task.isPlacement := by
      rw [← List.countP_append]
      rfl
    intro run
    unfold run Composite.runTasks
    cases hv : World.runTask env.recorded deadline w task with
    | mk v ending =>
      rw [hv] at spaced fewer
      have few : (placements v.exchange.record).length ≤
          (placements w.exchange.record).length + [task].countP Task.isPlacement := fewer
      have enough : (placements v.exchange.record).length ≤
          (placements w.exchange.record).length + (task :: tasks).countP Task.isPlacement := by
        omega
      rcases ending with fault | (_ | (failure | score))
      · exact ⟨spaced, by simp, enough⟩
      · exact ⟨spaced, by simp, enough⟩
      · exact ⟨spaced, fun _ _ => paced.runTask empty hv, enough⟩
      · simp only
        cases Checked.addNat r.score score with
        | error fault => exact ⟨spaced, by simp, enough⟩
        | ok total =>
          have after : Paced env l interval start v tasks := paced.runTask empty hv
          obtain ⟨spaced', paced', more⟩ :=
            ih (r := { r with score := total, completed := r.completed + 1 }) after
          refine ⟨spaced', paced', ?_⟩
          simp only at more ⊢
          omega

end World

end TradingLoad
