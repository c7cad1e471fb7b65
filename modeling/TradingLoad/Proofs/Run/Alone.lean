import TradingLoad.Proofs.Exchange.Record
import TradingLoad.Proofs.Run.Course

namespace TradingLoad.World

variable {σ : Type} {env : Environment σ} {deadline : Deadline}

/-- Time passes, up to the deadline if there is one. -/
structure Elapses (deadline : Deadline) (w v : World σ) : Prop where
  passes : w.now ≤ v.now
  inTime : ∀ d, deadline = some d → v.now ≤ max w.now d

/-- Time passes, and nothing else happens. -/
structure Waits (deadline : Deadline) (w v : World σ) : Prop extends Elapses deadline w v where
  investor : v.investor = w.investor
  exchange : v.exchange = w.exchange

/-- No moment before the deadline is left. -/
def IsOver (deadline : Deadline) (w : World σ) : Prop := ∀ d, deadline = some d → d ≤ w.now

theorem Elapses.refl (w : World σ) : Elapses deadline w w :=
  ⟨Nat.le_refl _, fun _ _ => Nat.le_max_left _ _⟩

theorem Elapses.trans {w v u : World σ} (h : Elapses deadline w v) (k : Elapses deadline v u) :
    Elapses deadline w u := by
  refine ⟨h.passes.trans k.passes, ?_⟩
  intro d hd
  have first := h.inTime d hd
  have second := k.inTime d hd
  omega

theorem Waits.refl (w : World σ) : Waits deadline w w := ⟨.refl w, rfl, rfl⟩

/-- A wait ends at its moment, or not before the deadline. -/
theorem waits_waitUntil {moment : Option Nat} {w v : World σ} {come : Bool}
    (h : w.waitUntil deadline moment = (v, come)) :
    Waits deadline w v ∧ (come = false → IsOver deadline v) ∧
      (come = true → ∃ m, moment = some m ∧ v.now = max w.now m) := by
  cases moment with
  | none =>
    obtain ⟨rfl, rfl⟩ := Prod.mk.inj h
    refine ⟨⟨⟨Nat.le_max_left _ _, ?_⟩, rfl, rfl⟩, ?_, by simp⟩
    · rintro d rfl
      exact Nat.le_refl _
    · rintro - d rfl
      exact Nat.le_max_right _ _
  | some m =>
    unfold waitUntil at h
    simp only at h
    split at h
    · next past =>
      obtain ⟨rfl, rfl⟩ := Prod.mk.inj h
      exact ⟨.refl w, by simp, fun _ => ⟨m, rfl, by omega⟩⟩
    · next future =>
      split at h
      · next up =>
        obtain ⟨rfl, rfl⟩ := Prod.mk.inj h
        refine ⟨.refl w, ?_, by simp⟩
        rintro - d rfl
        simpa [isUp] using up
      · next isOpen =>
        split at h
        · next inside =>
          obtain ⟨rfl, rfl⟩ := Prod.mk.inj h
          have later : w.now ≤ m := by omega
          refine ⟨⟨⟨later, ?_⟩, rfl, rfl⟩, by simp, ?_⟩
          · rintro d rfl
            have inTime : m ≤ d := by simpa [meets] using inside
            exact Nat.le_trans inTime (Nat.le_max_right _ _)
          · exact fun _ => ⟨m, rfl, (Nat.max_eq_right later).symm⟩
        · next late =>
          obtain ⟨rfl, rfl⟩ := Prod.mk.inj h
          cases deadline with
          | none => simp [meets] at late
          | some d =>
            have before : w.now < d := by simpa [isUp] using isOpen
            refine ⟨⟨⟨Nat.le_of_lt before, ?_⟩, rfl, rfl⟩, ?_, by simp⟩
            · intro d' hd
              obtain rfl := Option.some.inj hd
              exact Nat.le_max_right _ _
            · intro _ d' hd
              obtain rfl := Option.some.inj hd
              exact Nat.le_refl _

theorem waits_spread {w v : World σ} {task : Task} {come : Bool}
    (h : w.spread env deadline task = (v, come)) :
    Waits deadline w v ∧ (come = false → IsOver deadline v) := by
  unfold spread at h
  split at h
  · obtain ⟨rfl, rfl⟩ := Prod.mk.inj h
    exact ⟨.refl w, by simp⟩
  · obtain ⟨waits, timeUp, -⟩ := waits_waitUntil h
    exact ⟨⟨⟨waits.passes, waits.inTime⟩, waits.investor, waits.exchange⟩, timeUp⟩

/-- What a task that runs alone comes to: the world after it, and how it ends. -/
inductive ComesTo (env : Environment σ) (deadline : Deadline) (w : World σ) (task : Task) :
    World σ → Checked Composite.Ending → Prop
  /-- The time is up before the task makes a call. -/
  | late {v} (waits : Waits deadline w v) (timeUp : IsOver deadline v) :
      ComesTo env deadline w task v (.ok .cut)
  | faults {v fault} (waits : Waits deadline w v)
      (h : v.investor.begin (v.isRetired env) v.now task = .error fault) :
      ComesTo env deadline w task v (.error fault)
  /-- The task is over without a call. -/
  | skips {v investor score} (waits : Waits deadline w v)
      (h : v.investor.begin (v.isRetired env) v.now task = .ok (investor, .done score)) :
      ComesTo env deadline w task { v with investor } (.ok (.ended (.ok score)))
  /-- The time is up before the reply comes. -/
  | hangs {v u c} (waits : Waits deadline w v)
      (h : v.investor.begin (v.isRetired env) v.now task = .ok (v.investor, .ask c))
      (asks : Waits deadline (v.ask env c) u) (timeUp : IsOver deadline u) :
      ComesTo env deadline w task u (.ok .cut)
  | answered {v u c latency} (waits : Waits deadline w v)
      (h : v.investor.begin (v.isRetired env) v.now task = .ok (v.investor, .ask c))
      (takes : env.exchange.latency (v.ask env c).exchange c = some latency)
      (comes : Waits deadline (v.ask env c) u) (now : u.now = v.now + latency) :
      ComesTo env deadline w task (u.settle env c).1 ((u.settle env c).2.map .ended)

theorem comesTo_runTask (env : Environment σ) (deadline : Deadline) (w : World σ) (task : Task) :
    ComesTo env deadline w task (w.runTask env deadline task).1
      (w.runTask env deadline task).2 := by
  unfold runTask
  cases hs : w.spread env deadline task with
  | mk v come =>
    obtain ⟨waits, timeUp⟩ := waits_spread hs
    cases come with
    | false => exact .late waits (timeUp rfl)
    | true =>
      simp only
      cases hb : v.investor.begin (v.isRetired env) v.now task with
      | error fault => exact .faults waits hb
      | ok begun =>
        obtain ⟨investor, opening⟩ := begun
        cases opening with
        | done score => exact .skips waits hb
        | ask c =>
          obtain ⟨rfl, -⟩ := Investor.begin_eq_ask hb
          simp only [perform]
          cases hw : waitUntil deadline
              ((env.exchange.latency (v.ask env c).exchange c).map ((v.ask env c).now + ·))
              (v.ask env c) with
          | mk u come =>
            obtain ⟨comes, timeUp, moment⟩ := waits_waitUntil hw
            cases come with
            | false => exact .hangs waits hb comes (timeUp rfl)
            | true =>
              obtain ⟨m, hm, now⟩ := moment rfl
              obtain ⟨latency, takes, rfl⟩ := Option.map_eq_some_iff.mp hm
              refine .answered waits hb takes comes ?_
              rw [now]
              exact Nat.max_eq_right (Nat.le_add_right _ _)

theorem ComesTo.elapses {w u : World σ} {task : Task} {ending : Checked Composite.Ending}
    (h : ComesTo env deadline w task u ending) : Elapses deadline w u := by
  cases h with
  | late waits => exact waits.toElapses
  | faults waits => exact waits.toElapses
  | skips waits => exact ⟨waits.passes, waits.inTime⟩
  | hangs waits h asks => exact waits.toElapses.trans ⟨asks.passes, asks.inTime⟩
  | answered waits h takes comes =>
    have whole := waits.toElapses.trans ⟨comes.passes, comes.inTime⟩
    exact ⟨whole.passes, whole.inTime⟩

theorem ComesTo.isOver {w u : World σ} {task : Task} {ending : Checked Composite.Ending}
    (h : ComesTo env deadline w task u ending) (cut : ending = .ok .cut) : IsOver deadline u := by
  cases h with
  | late waits timeUp => exact timeUp
  | faults => cases cut
  | skips => cases cut
  | hangs waits h asks timeUp => exact timeUp
  | @answered v u c =>
    cases h : (u.settle env c).2 <;> simp [h, Except.map] at cut

/-- What neither the opening of a task nor a reply changes, stays. -/
theorem ComesTo.keeps {α : Type} {f : Investor → α} {w u : World σ} {task : Task}
    {ending : Checked Composite.Ending} (h : ComesTo env deadline w task u ending)
    (opening : ∀ inv trader pending, f { inv with trader, pending } = f inv)
    (reply : ∀ inv now at_ c r, f (inv.receive now at_ c r).1 = f inv) :
    f u.investor = f w.investor := by
  cases h with
  | late waits => rw [waits.investor]
  | faults waits => rw [waits.investor]
  | @skips v investor score waits h =>
    obtain ⟨trader, pending, rfl⟩ := Investor.begin_eq_ok h
    rw [opening, waits.investor]
  | @hangs v u c waits h asks =>
    rw [asks.investor, ← waits.investor]
    rfl
  | @answered v u c latency waits h takes comes now =>
    show f (u.investor.receive u.now (env.wallClock u.now) c _).1 = _
    rw [reply, comes.investor, ← waits.investor]
    rfl

/-- What every task keeps, tasks in a row keep, however they end. -/
theorem keeps_runTasks {P : World σ → Prop} {w : World σ}
    (step : ∀ {w task u ending}, ComesTo env deadline w task u ending → P w → P u) (h : P w)
    (r : Composite.Report) (tasks : List Task) :
    P (Composite.runTasks Task.name (runTask env deadline) r tasks w).1 := by
  induction tasks generalizing r w with
  | nil => exact h
  | cons task tasks ih =>
    have first : P (w.runTask env deadline task).1 := step (comesTo_runTask env deadline w task) h
    rcases Composite.runTasks_cons Task.name (runTask env deadline) r task tasks w with
      stops | ⟨r', goesOn⟩
    · rw [stops]
      exact first
    · rw [goesOn]
      exact ih first r'

theorem elapses_runTasks (r : Composite.Report) (tasks : List Task) (w : World σ) :
    Elapses deadline w (Composite.runTasks Task.name (runTask env deadline) r tasks w).1 ∧
      ((Composite.runTasks Task.name (runTask env deadline) r tasks w).2 = .ok none →
        IsOver deadline (Composite.runTasks Task.name (runTask env deadline) r tasks w).1) := by
  induction tasks generalizing r w with
  | nil => exact ⟨.refl w, by simp [Composite.runTasks]⟩
  | cons task tasks ih =>
    have comes := comesTo_runTask env deadline w task
    unfold Composite.runTasks
    cases hv : w.runTask env deadline task with
    | mk v ending =>
      rw [hv] at comes
      have first : Elapses deadline w v := comes.elapses
      rcases ending with fault | (_ | (failure | score))
      · exact ⟨first, by simp⟩
      · exact ⟨first, fun _ => comes.isOver rfl⟩
      · exact ⟨first, by simp⟩
      · simp only
        cases Checked.addNat r.score score with
        | error fault => exact ⟨first, by simp⟩
        | ok total =>
          obtain ⟨rest, timeUp⟩ := ih { r with score := total, completed := r.completed + 1 } v
          exact ⟨first.trans rest, timeUp⟩

/-- A call and its reply are put on record with their moments. -/
theorem record_settle {w v u : World (Recorded σ)} {c : Call} {latency : Nat}
    (waits : Waits deadline w v)
    (takes : env.recorded.exchange.latency (v.ask env.recorded c).exchange c = some latency)
    (comes : Waits deadline (v.ask env.recorded c) u) (now : u.now = v.now + latency) :
    (u.settle env.recorded c).1.exchange.record =
      .replied u.now c (env.recorded.exchange.reply c u.exchange).1 :: .asked v.now c ::
        w.exchange.record := by
  have takes' : env.exchange.latency (v.ask env.recorded c).exchange.exchange c = some latency :=
    takes
  have due : u.exchange.due = u.now := by
    rw [comes.exchange, now]
    show v.now + (env.exchange.latency (v.ask env.recorded c).exchange.exchange c).getD 0 = _
    rw [takes', Option.getD_some]
  have before : u.exchange.record = .asked v.now c :: w.exchange.record := by
    rw [comes.exchange, ← waits.exchange]
    rfl
  show Dealing.replied u.exchange.due c (env.recorded.exchange.reply c u.exchange).1 ::
    u.exchange.record = _
  rw [due, before]

/-- The ledger is the one after the operations on record. -/
def InLine (env : Environment σ) (l : Ledger) (w : World (Recorded σ)) : Prop :=
  w.investor.ledger = l.after (operations env w.exchange.record)

theorem InLine.comesTo {l : Ledger} {w u : World (Recorded σ)} {task : Task}
    {ending : Checked Composite.Ending} (h : ComesTo env.recorded deadline w task u ending)
    (line : InLine env l w) : InLine env l u := by
  unfold InLine at line ⊢
  cases h with
  | late waits => rw [waits.investor, waits.exchange, line]
  | faults waits => rw [waits.investor, waits.exchange, line]
  | @skips v investor score waits h =>
    show investor.ledger = _
    rw [Investor.ledger_begin h, waits.investor, waits.exchange, line]
  | @hangs v u c waits h asks =>
    rw [asks.investor, asks.exchange]
    show v.investor.ledger = l.after (operations env (.asked v.now c :: v.exchange.record))
    rw [waits.investor, waits.exchange, line]
    rfl
  | @answered v u c latency waits h takes comes now =>
    rw [record_settle waits takes comes now, operations_replied, Course.settle_eq]
    simp only
    rw [Investor.ledger_receive, comes.investor]
    show v.investor.ledger.after _ = _
    rw [waits.investor, line, ← Ledger.after_append, operations_asked]
    rfl

end TradingLoad.World
