import TradingLoad.Proofs.Run.Course

namespace TradingLoad

namespace Event

/-- The poll has succeeded and reports trades among the orders of the investor. -/
def reportsTrades : Event → Bool
  | .answered _ (.info _) (.ok info) _ _ => info.hasTradedOrders
  | _ => false

/-- The orders are asked for. -/
def isFetch : Event → Bool
  | .asked .getOrders => true
  | _ => false

/-- A task is dropped because one before it has failed. -/
def drops (task : Task) : Event → Bool
  | .answered _ _ _ _ dropped => dropped.contains task
  | _ => false

end Event

namespace Course

variable {σ : Type} {env : Environment σ} {stirs : σ → σ → Prop}

/-- A task is queued for the next tick or left to do in this one. -/
def isScheduled (task : Task) (s : Course σ) : Prop :=
  task ∈ s.world.investor.pending ∨ task ∈ s.agenda

instance (task : Task) (s : Course σ) : Decidable (s.isScheduled task) := by
  unfold isScheduled
  infer_instance

/-- A poll that reports trades queues a reconciliation. -/
theorem scheduled_of_report {s t : Course σ} {event : Event}
    (h : Step env stirs s (some event) t) (reports : event.reportsTrades) :
    t.isScheduled .updateOrders := by
  cases h with
  | ask h => simp [Event.reportsTrades] at reports
  | @answer w u c tasks result h =>
    cases c with
    | info cursor =>
      left
      have queued := Investor.pending_receive w.investor w.now (env.wallClock w.now) (.info cursor)
        (env.exchange.reply (.info cursor) w.exchange).1
      obtain rfl : (w.settle env (.info cursor)).1 = u := congrArg Prod.fst h
      rw [settle_eq]
      change Task.updateOrders ∈
        (w.investor.receive w.now (env.wallClock w.now) (.info cursor) _).1.pending
      rw [queued]
      cases hr : (env.exchange.reply (.info cursor) w.exchange).1 with
      | error failure => simp [Event.reportsTrades, hr] at reports
      | ok info =>
        have traded : info.hasTradedOrders := by simpa [Event.reportsTrades, hr] using reports
        simp [traded]
    | _ => simp [Event.reportsTrades] at reports

/-- A reply only adds to the queue. -/
theorem pending_settle (w : World σ) (c : Call) :
    w.investor.pending ⊆ (w.settle env c).1.investor.pending := by
  have queued := Investor.pending_receive w.investor w.now (env.wallClock w.now) c
    (env.exchange.reply c w.exchange).1
  change _ ⊆ (w.investor.receive w.now (env.wallClock w.now) c _).1.pending
  rw [queued]
  exact List.subset_append_left _ _

/-- A scheduled reconciliation stays scheduled, unless it begins or is dropped. -/
theorem scheduled_step {s t : Course σ} {event : Option Event} (h : Step env stirs s event t)
    (scheduled : s.isScheduled .updateOrders) (unfetched : ∀ e ∈ event, ¬ e.isFetch) :
    t.isScheduled .updateOrders ∨ ∃ e ∈ event, e.drops .updateOrders := by
  cases h with
  | wait now drawn h => exact .inl scheduled
  | stir exchange h => exact .inl scheduled
  | next h =>
    obtain ⟨-, rfl, hc⟩ := Investor.next_eq_ok h
    obtain queued | waiting := scheduled
    · refine .inl (.inr ?_)
      simp only [opening, hc]
      exact List.mem_cons_of_mem _ (List.mem_append_left _ queued)
    · simp at waiting
  | @done w task tasks investor score h =>
    obtain ⟨other, -⟩ := Investor.begin_eq_done h
    obtain queued | waiting := scheduled
    · exact .inl (.inl (Investor.pending_begin h queued))
    · exact .inl (.inr (List.mem_of_ne_of_mem (Ne.symm other) waiting))
  | @ask w task tasks investor c h =>
    obtain ⟨-, rfl⟩ := Investor.begin_eq_ask h
    obtain queued | waiting := scheduled
    · exact .inl (.inl (Investor.pending_begin h queued))
    · obtain begun | later := List.mem_cons.mp waiting
      · cases c with
        | getOrders => simp [Event.isFetch] at unfetched
        | _ => simp [Call.task] at begun
      · exact .inl (.inr later)
  | @answer w u c tasks result h =>
    obtain rfl : (w.settle env c).1 = u := congrArg Prod.fst h
    obtain queued | waiting := scheduled
    · exact .inl (.inl (pending_settle w c queued))
    · cases result with
      | ok score => exact .inl (.inr waiting)
      | error failure =>
        refine .inr ⟨_, rfl, ?_⟩
        simpa [Event.drops, dropped] using waiting

/-- Polls at every tick, and one order a minute. -/
def promptPolls : Timing :=
  { Timing.standard with
    pollingIntervalMs := 0, orderUpdateIntervalMs := 60000, signupJitterMs := 0 }

/-- An exchange that trades the first order before the third poll, and fails at the fourth one. -/
def failsAfterTrade : ScriptedExchange :=
  ScriptedExchange.initial.changeAll
    [.hook 9 [.settle 1 100], .hook 10 [.canned .info [.error (.status 500 "internal error")]]]

theorem eq_take_append_cons_drop {α : Type} {xs : List α} {k : Nat} {x : α} (h : xs[k]? = some x) :
    xs = xs.take k ++ x :: xs.drop (k + 1) := by
  obtain ⟨hk, rfl⟩ := List.getElem?_eq_some_iff.mp h
  rw [← List.drop_eq_getElem_cons hk, List.take_append_drop]

end Course

end TradingLoad
