import TradingLoad.Proofs.Ledger.Merging
import TradingLoad.Proofs.Policy.Cancelling
import TradingLoad.Proofs.Run.Agenda
import Mathlib.Logic.Relation

namespace TradingLoad

/-- The task places an order. -/
def Task.isPlacement : Task → Bool
  | .addOrder _ _ _ => true
  | _ => false

/-- An order is placed below the cap only. -/
theorem RandomTrader.openCount_lt_of_place {t t' : RandomTrader} {s : Situation} {side : Side}
    {amount price : Int} {motive : Motive}
    (h : t.decide s = .ok (.place side amount price motive, t')) (positive : 1 ≤ s.orderCap) :
    s.openCount < s.orderCap := by
  unfold decide at h
  split at h
  · next full =>
    obtain ⟨worst, hw, h⟩ := Checked.bind_eq_ok_iff.mp h
    cases worst with
    | some o => cases Except.ok.inj h
    | none => exact absurd hw (Situation.leastCompetitive_ne_none (by omega))
  · next room => exact Nat.lt_of_not_le room

namespace Investor

variable {inv : Investor}

theorem caps_of_situation {s : Situation} (h : inv.situation = .ok s) :
    s.orderCap = inv.timing.orderCap ∧ s.openCount = inv.ledger.openCount := by
  have orders := (situation_eq_ok h).1
  obtain ⟨credit, -, h⟩ := Checked.bind_eq_ok_iff.mp h
  obtain ⟨inventory, -, h⟩ := Checked.bind_eq_ok_iff.mp h
  obtain rfl := Except.ok.inj h
  refine ⟨rfl, ?_⟩
  rw [Situation.openCount, Situation.openOrders, Ledger.openCount, List.countP_eq_length_filter]

/-- There is room for what a decision queues. -/
theorem room_for_followUps {s : Situation} {d : Decision} {trader trader' : RandomTrader}
    (h : trader.decide s = .ok (d, trader')) (positive : 1 ≤ s.orderCap)
    (room : s.openCount ≤ s.orderCap) :
    s.openCount + (followUps d).countP Task.isPlacement ≤ s.orderCap := by
  cases d with
  | place side amount price motive =>
    have below := RandomTrader.openCount_lt_of_place h positive
    have one : (followUps (.place side amount price motive)).countP Task.isPlacement = 1 := rfl
    omega
  | _ => exact room

/-- A reply opens an order only if it answers a placement. -/
theorem openCount_receive_le (inv : Investor) (now : Nat) (at_ : Timestamp) (c : Call)
    (r : c.Reply) :
    (inv.receive now at_ c r).1.ledger.openCount ≤
      inv.ledger.openCount + [c.task].countP Task.isPlacement := by
  rw [ledger_receive]
  cases hop : operationOf at_ c r with
  | none => exact Nat.le_add_right _ _
  | some op =>
    have opened := inv.ledger.openCount_perform_le op
    cases op with
    | place o =>
      have placement : [c.task].countP Task.isPlacement = 1 := by
        cases c with
        | addOrder side amount price => rfl
        | _ => cases r <;> simp [operationOf] at hop
      rw [placement]
      exact opened
    | _ => exact Nat.le_trans opened (Nat.le_add_right _ _)

theorem placements_receive (inv : Investor) (now : Nat) (at_ : Timestamp) (c : Call)
    (r : c.Reply) :
    (inv.receive now at_ c r).1.pending.countP Task.isPlacement =
      inv.pending.countP Task.isPlacement := by
  rw [pending_receive, List.countP_append]
  split
  · split <;> rfl
  · rfl

end Investor

theorem IsQueue.countP_isOrder_le {tasks : List Task} (h : IsQueue tasks) :
    tasks.countP Task.isOrder ≤ 1 := by
  induction h with
  | none => exact Nat.zero_le 1
  | order h =>
    rw [List.countP_cons_of_pos h]
    exact Nat.le_refl 1
  | update rest ih =>
    rw [List.countP_cons_of_neg (by simp [Task.isOrder])]
    exact ih

theorem IsAgenda.countP_isOrder_le {tasks : List Task} (h : IsAgenda tasks) :
    tasks.countP Task.isOrder ≤ 1 := by
  induction h with
  | order h =>
    rw [List.countP_cons_of_pos h]
    exact Nat.le_refl 1
  | quiet h other rest ih =>
    rw [List.countP_cons_of_neg h]
    exact ih
  | _ => exact Nat.zero_le 1

namespace Course

variable {σ : Type} {env : Environment σ} {stirs : σ → σ → Prop} {s t : Course σ}

/-- A course goes on, or the composite in hand is given up. -/
inductive Proceeds (env : Environment σ) (stirs : σ → σ → Prop) : Course σ → Course σ → Prop
  | step {s event t} (h : Step env stirs s event t) : Proceeds env stirs s t
  | giveUp {w calling agenda} : Proceeds env stirs ⟨w, calling, agenda⟩ ⟨w, none, []⟩

/-- The investor of a world starts, and proceeds. -/
def Reaches (env : Environment σ) (stirs : σ → σ → Prop) (w : World σ) (s : Course σ) : Prop :=
  ∃ investor c, w.investor.start = (investor, .ok c) ∧
    Relation.ReflTransGen (Proceeds env stirs) (opening w investor c.tasks) s

/-- The tasks that are in hand or to come. -/
def tasks (s : Course σ) : List Task :=
  (s.calling.map Call.task).toList ++ s.agenda ++ s.world.investor.pending

/-- With the placements to come there are no more open orders than the cap allows. -/
structure Capped (cap : Nat) (s : Course σ) : Prop where
  orderly : s.Orderly
  timing : s.world.investor.timing.orderCap = cap
  room : s.world.investor.ledger.openCount + s.tasks.countP Task.isPlacement ≤ cap

theorem Capped.done {cap : Nat} {w : World σ} {investor : Investor} {task : Task}
    {tasks : List Task} {score : Nat} (hc : Capped cap (⟨w, none, task :: tasks⟩ : Course σ))
    (positive : 1 ≤ cap)
    (h : w.investor.begin (w.isRetired env) w.now task = .ok (investor, .done score)) :
    investor.timing.orderCap = cap ∧
      investor.ledger.openCount + (tasks ++ investor.pending).countP Task.isPlacement ≤ cap := by
  have room : w.investor.ledger.openCount +
      (task :: tasks ++ w.investor.pending).countP Task.isPlacement ≤ cap := hc.room
  have timing : w.investor.timing.orderCap = cap := hc.timing
  rw [List.cons_append, List.countP_cons] at room
  obtain ⟨-, rfl | ⟨rfl, hd⟩⟩ := Investor.begin_eq_done h
  · exact ⟨timing, by omega⟩
  · obtain rfl | ⟨s, d, trader, hs, decided, rfl⟩ := Investor.decide_eq_ok hd
    · exact ⟨timing, by omega⟩
    · refine ⟨timing, ?_⟩
      obtain rfl := hc.orderly.agenda.after_decision
      have quiet : w.investor.pending.countP Task.isPlacement = 0 := by
        apply List.countP_eq_zero.mpr
        intro task mem
        rw [hc.orderly.updates (by simp [isIdle]) task mem]
        simp [Task.isPlacement]
      obtain ⟨orderCap, openCount⟩ := Investor.caps_of_situation hs
      have queued := Investor.room_for_followUps decided (by omega) (by omega)
      simp only [List.nil_append, List.countP_append, quiet]
      omega

theorem Capped.answer {cap : Nat} {w u : World σ} {c : Call} {tasks : List Task}
    {result : Except Failure Nat} (hc : Capped cap (⟨w, some c, tasks⟩ : Course σ))
    (h : w.settle env c = (u, .ok result)) :
    u.investor.timing.orderCap = cap ∧
      u.investor.ledger.openCount +
        (remaining tasks result ++ u.investor.pending).countP Task.isPlacement ≤ cap := by
  have room : w.investor.ledger.openCount +
      ([c.task] ++ tasks ++ w.investor.pending).countP Task.isPlacement ≤ cap := hc.room
  have timing : w.investor.timing.orderCap = cap := hc.timing
  obtain rfl : (w.settle env c).1 = u := congrArg Prod.fst h
  have opened := w.investor.openCount_receive_le w.now (env.wallClock w.now) c
    (env.exchange.reply c w.exchange).1
  have queued := w.investor.placements_receive w.now (env.wallClock w.now) c
    (env.exchange.reply c w.exchange).1
  have left : (remaining tasks result).countP Task.isPlacement ≤
      tasks.countP Task.isPlacement := by
    cases result with
    | ok score => exact Nat.le_refl _
    | error failure => exact Nat.zero_le _
  rw [settle_eq]
  simp only [List.countP_append] at room ⊢
  refine ⟨?_, ?_⟩
  · rw [Investor.timing_receive]
    exact timing
  · omega

theorem capped_step {cap : Nat} {event : Option Event} (h : Step env stirs s event t)
    (positive : 1 ≤ cap) (hc : s.Capped cap) : t.Capped cap := by
  have orderly := orderly_step h hc.orderly
  have room := hc.room
  cases h with
  | wait now drawn h => exact ⟨orderly, hc.timing, room⟩
  | stir exchange h => exact ⟨orderly, hc.timing, room⟩
  | next h =>
    obtain ⟨-, rfl, hc'⟩ := Investor.next_eq_ok h
    refine ⟨orderly, hc.timing, ?_⟩
    simp only [tasks, opening, hc'] at room ⊢
    simpa [Task.isPlacement] using room
  | done h =>
    obtain ⟨timing, room⟩ := hc.done positive h
    exact ⟨orderly, timing, room⟩
  | @ask w task tasks investor c h =>
    obtain ⟨rfl, rfl⟩ := Investor.begin_eq_ask h
    refine ⟨orderly, hc.timing, ?_⟩
    simpa [Course.tasks, World.ask] using room
  | answer h =>
    obtain ⟨timing, room⟩ := hc.answer h
    exact ⟨orderly, timing, room⟩

theorem capped_of_proceeds {cap : Nat} (h : Proceeds env stirs s t) (positive : 1 ≤ cap)
    (hc : s.Capped cap) : t.Capped cap := by
  cases h with
  | step h => exact capped_step h positive hc
  | @giveUp w calling agenda =>
    refine ⟨⟨.over, hc.orderly.queue, ?_, by simp⟩, hc.timing, ?_⟩
    · intro busy
      exact absurd ⟨rfl, rfl⟩ busy
    · have room := hc.room
      simp only [tasks, List.countP_append] at room ⊢
      simp only [Option.map_none, Option.toList_none, List.countP_nil]
      omega

/-- An investor never has more open orders than its cap, and a composite has one order task at most,
whatever the exchange answers and whichever composites are given up. -/
theorem open_orders_le_cap {account : String} {profile : InvestorProfile} {rewards : Rewards}
    {timing : Timing} {source : Random.Stream} {w : World σ}
    (made : Investor.new account profile rewards timing source = .ok w.investor)
    (positive : 1 ≤ timing.orderCap) (run : Reaches env stirs w s) :
    s.world.investor.ledger.openCount ≤ timing.orderCap ∧
      s.agenda.countP Task.isOrder ≤ 1 ∧
      ∀ retired investor c, s.world.investor.next retired = (investor, .ok (some c)) →
        c.tasks.countP Task.isOrder ≤ 1 := by
  obtain ⟨investor, c, hs, steps⟩ := run
  obtain ⟨-, rfl, hc⟩ := Investor.start_eq_ok hs
  obtain ⟨ledger, pending, -⟩ := Investor.new_eq_ok made
  have started : Runs env stirs w [] (opening w { w.investor with started := true } c.tasks) :=
    ⟨_, c, hs, .refl⟩
  have start : Capped timing.orderCap (opening w { w.investor with started := true } c.tasks) := by
    refine ⟨orderly_of_runs started pending, ?_, ?_⟩
    · have timing := Investor.timing_of_new made
      exact congrArg Timing.orderCap timing
    · simp only [tasks, opening, hc, ledger, pending]
      exact Nat.zero_le _
  have capped : s.Capped timing.orderCap := by
    clear hs started
    induction steps with
    | refl => exact start
    | tail before last ih => exact capped_of_proceeds last positive ih
  refine ⟨Nat.le_trans (Nat.le_add_right _ _) capped.room, capped.orderly.agenda.countP_isOrder_le,
    ?_⟩
  intro retired investor c' hn
  obtain ⟨-, -, hc'⟩ := Investor.next_eq_ok hn
  have agenda := capped.orderly.queue.isAgenda.countP_isOrder_le
  rw [hc', List.countP_cons_of_neg (by simp [Task.isOrder])]
  exact agenda

theorem reaches_of_runs {w : World σ} {history : List Event} (run : Runs env stirs w history s) :
    Reaches env stirs w s := by
  obtain ⟨investor, c, hs, steps⟩ := run
  refine ⟨investor, c, hs, ?_⟩
  induction steps with
  | refl => exact .refl
  | step before last ih => exact ih.tail (.step last)

/-- One open order, and orders without any pause. -/
def singleOrder : Timing :=
  { Timing.standard with orderCap := 1, orderUpdateIntervalMs := 0, signupJitterMs := 0 }

/-- The composite behind the first placement is given up, and its order stays open. -/
theorem open_orders_le_one_after_giving_up :
    ∃ inv s,
      Investor.new "investor" ⟨500, 0, 5, 100, 1⟩ .standard singleOrder (.ofSeed 0) = .ok inv ∧
      Reaches scripted (fun _ _ => False) (.new inv .initial) s ∧
      s.calling = none ∧ s.agenda = [] ∧ s.world.investor.ledger.orders ≠ [] ∧
      s.world.investor.ledger.openCount ≤ 1 := by
  have rehearsal : (rehearse scripted ⟨500, 0, 5, 100, 1⟩ singleOrder .initial 15).any
      fun r => decide (r.2.agenda = [.updateOrders, .decision]) &&
        decide (r.2.world.investor.ledger.orders ≠ []) := by decide
  obtain ⟨inv, history, s, hi, run, found⟩ := exists_run_of_rehearse (fun _ _ => False) rehearsal
  simp only [Bool.and_eq_true, decide_eq_true_eq] at found
  obtain ⟨agenda, placed⟩ := found
  obtain ⟨w, calling, agenda⟩ := s
  obtain ⟨investor, c, hs, steps⟩ := reaches_of_runs run
  have given : Reaches scripted (fun _ _ => False) (.new inv .initial) ⟨w, none, []⟩ :=
    ⟨investor, c, hs, steps.tail .giveUp⟩
  exact ⟨inv, _, hi, given, rfl, rfl, placed, (open_orders_le_cap hi (by decide) given).1⟩

end Course

end TradingLoad
