import TradingLoad.Proofs.Run.Alone

namespace TradingLoad

/-- More was found reserved than held. -/
def Failure.isDesync : Failure → Bool
  | balanceDesync _ _ => true
  | _ => false

/-- The reward of a task. -/
def Rewards.of (rewards : Rewards) : Task → Nat
  | .top => rewards.top
  | .signup => rewards.signup
  | .signin => rewards.signin
  | .info => rewards.info
  | .updateOrders => rewards.getOrders
  | .decision => 0
  | .addOrder _ _ _ => rewards.addOrder
  | .removeOrder _ => rewards.deleteOrder

/-- The exchange refuses an order for lack of money, or knows of none to take back. -/
def isRefusal : (c : Call) → c.Reply → Bool
  | .addOrder _ _ _, .error failure => failure.isInsufficientBalance
  | .deleteOrder _, .error failure => failure.isNotFound
  | _, _ => false

namespace Investor

/-- A task has nothing to do: the investor is signed in, has polled a short while ago, has retired,
or has seen the order removed. -/
def isDone (inv : Investor) (retired : Bool) (now : Nat) : Task → Bool
  | .signup => inv.signedIn
  | .info => retired || !inv.polling.isDue now
  | .decision => retired
  | .removeOrder id => (inv.ledger.find? id).any Order.isRemoved
  | _ => false

variable {inv inv' : Investor} {retired : Bool} {now : Nat} {task : Task}

theorem begin_of_isDone (done : inv.isDone retired now task) :
    inv.begin retired now task = .ok (inv, .done 0) := by
  cases task with
  | signup =>
    have signedIn : inv.signedIn = true := done
    simp only [begin, signedIn, if_true]
  | info =>
    have early : (retired || !inv.polling.isDue now) = true := done
    simp only [begin, early, if_true]
  | decision =>
    obtain rfl : retired = true := done
    rfl
  | removeOrder id =>
    have removed : (inv.ledger.find? id).any Order.isRemoved = true := done
    simp only [begin, removed, if_true]
  | _ => cases done

theorem isDone_of_begin {score : Nat} (h : inv.begin retired now task = .ok (inv', .done score))
    (undecided : task ≠ .decision) : inv.isDone retired now task := by
  cases task with
  | signup =>
    by_contra pending
    have signedOut : inv.signedIn = false := by simpa [isDone] using pending
    simp [begin, signedOut] at h
  | info =>
    by_contra pending
    have due : (retired || !inv.polling.isDue now) = false := by simpa [isDone] using pending
    simp [begin, due] at h
  | decision => exact absurd rfl undecided
  | removeOrder id =>
    by_contra pending
    have unknown : (inv.ledger.find? id).any Order.isRemoved = false := by
      simpa [isDone] using pending
    simp [begin, unknown] at h
  | _ => simp [begin] at h

/-- What has nothing to do had nothing to do before. -/
theorem isDone_earlier {later : Nat} (passes : now ≤ later)
    (done : inv.isDone retired later task) : inv.isDone retired now task := by
  cases task with
  | info =>
    simp only [isDone, Polling.isDue, Bool.or_eq_true, Bool.not_eq_true'] at done ⊢
    rcases done with out | early
    · exact .inl out
    · right
      split at early
      · exact early
      · have before := of_decide_eq_false early
        apply decide_eq_false
        omega
  | _ => exact done

variable (inv) (at_ : Timestamp)

theorem receive_of_isRefusal {c : Call} {r : c.Reply} (refused : isRefusal c r) :
    inv.receive now at_ c r = (inv, .ok (.ok 0)) := by
  cases c with
  | addOrder side amount price =>
    cases r with
    | ok o => cases refused
    | error failure =>
      have unaffordable : failure.isInsufficientBalance = true := refused
      simp only [receive, unaffordable, if_true]
  | deleteOrder id =>
    cases r with
    | ok _ => cases refused
    | error failure =>
      have unknown : failure.isNotFound = true := refused
      simp only [receive, unknown, if_true]
  | _ => cases refused

variable {inv at_}

/-- A failed reconciliation keeps the ledger, or has found it overcommitted. -/
theorem reconcile_of_failure {l : Ledger} {remote : List Order} {failure : Failure}
    (h : (l.reconcile remote at_).2 = .ok (.error failure)) (sound : ¬ failure.isDesync) :
    (l.reconcile remote at_).1 = l := by
  by_cases commits : l.commits remote at_
  · obtain ⟨merged, -, -, result⟩ := Ledger.reconcile_of_commits commits
    rw [h] at result
    split at result
    · cases found : (l.exactOver merged).desync with
      | error fault => simp [found, Except.map] at result
      | ok desync =>
        have same : failure = desync := by simpa [found, Except.map] using result
        obtain ⟨credit, -, found⟩ := Checked.bind_eq_ok_iff.mp found
        obtain ⟨inventory, -, found⟩ := Checked.bind_eq_ok_iff.mp found
        obtain rfl := Except.ok.inj found
        exact absurd rfl (same ▸ sound)
    · cases result
  · exact (Ledger.reconcile_of_not_commits (Bool.eq_false_iff.mpr commits)).1

theorem receive_of_failure {c : Call} {r : c.Reply} {failure : Failure}
    (h : (inv.receive now at_ c r).2 = .ok (.error failure)) :
    (¬ failure.isDesync → (inv.receive now at_ c r).1 = inv) ∧
      ∃ ledger, (inv.receive now at_ c r).1 = { inv with ledger } := by
  cases c with
  | getOrders =>
    cases r with
    | error failure' => exact ⟨fun _ => rfl, inv.ledger, rfl⟩
    | ok orders =>
      refine ⟨?_, _, rfl⟩
      intro sound
      have failed : (inv.ledger.reconcile orders at_).2 = .ok (.error failure) := by
        have outcome : (inv.ledger.reconcile orders at_).2.map (fun result =>
            result.map fun _ => inv.rewards.getOrders) = .ok (.error failure) := h
        cases hr : (inv.ledger.reconcile orders at_).2 with
        | error fault => simp [hr, Except.map] at outcome
        | ok result =>
          cases result with
          | error failure' => simpa [hr, Except.map] using outcome
          | ok report => simp [hr, Except.map] at outcome
      have kept := reconcile_of_failure failed sound
      show { inv with ledger := (inv.ledger.reconcile orders at_).1 } = inv
      rw [kept]
  | _ =>
    cases r with
    | error failure' => exact ⟨fun _ => rfl, inv.ledger, rfl⟩
    | ok answer => simp [receive] at h

theorem score_receive {c : Call} {r : c.Reply} {score : Nat}
    (h : (inv.receive now at_ c r).2 = .ok (.ok score)) :
    isRefusal c r ∨ score = inv.rewards.of c.task := by
  have same {reward : Nat} (h : (.ok (.ok reward) : Outcome Nat) = .ok (.ok score)) :
      score = reward := by
    have result := Except.ok.inj h
    exact (Except.ok.inj result).symm
  cases c with
  | signup =>
    right
    cases r with
    | ok answer => exact same h
    | error failure =>
      -- an account that exists is as good as a new one
      by_cases existing : failure.isAlreadyExists
      · simp only [receive, existing, if_true] at h
        exact same h
      · simp [receive, existing] at h
  | getOrders =>
    right
    cases r with
    | error failure => simp [receive] at h
    | ok orders =>
      have outcome : (inv.ledger.reconcile orders at_).2.map (fun result =>
          result.map fun _ => inv.rewards.getOrders) = .ok (.ok score) := h
      cases hr : (inv.ledger.reconcile orders at_).2 with
      | error fault => simp [hr, Except.map] at outcome
      | ok result =>
        rw [hr] at outcome
        cases result with
        | error failure => simp [Except.map] at outcome
        | ok report => exact same outcome
  | addOrder side amount price =>
    cases r with
    | ok o => exact .inr (same h)
    | error failure =>
      left
      by_contra other
      have charged : failure.isInsufficientBalance = false := by simpa [isRefusal] using other
      simp [receive, charged] at h
  | deleteOrder id =>
    cases r with
    | ok answer => exact .inr (same h)
    | error failure =>
      left
      by_contra other
      have known : failure.isNotFound = false := by simpa [isRefusal] using other
      simp [receive, known] at h
  | _ =>
    right
    cases r with
    | ok answer => exact same h
    | error failure => simp [receive] at h

end Investor

namespace World

variable {σ : Type} {env : Environment σ} {deadline : Deadline} {w u : World σ} {task : Task}

/-- A task has nothing to do in a world. -/
def isDone (env : Environment σ) (w : World σ) (task : Task) : Bool :=
  w.investor.isDone (w.isRetired env) w.now task

theorem isDone_of_waits {v : World σ} (waits : Waits deadline w v) (done : v.isDone env task) :
    w.isDone env task := by
  have same : v.isDone env task = w.investor.isDone (w.isRetired env) v.now task := by
    unfold isDone isRetired
    rw [waits.investor, waits.exchange]
  rw [same] at done
  exact Investor.isDone_earlier waits.passes done

/-- A task that has nothing to do makes no call and changes nothing. -/
theorem runTask_of_isDone (deadline : Deadline) (done : w.isDone env task) :
    (w.runTask env deadline task).1.investor = w.investor ∧
      (w.runTask env deadline task).1.exchange = w.exchange ∧
      ((w.runTask env deadline task).2 = .ok (.ended (.ok 0)) ∨
        (w.runTask env deadline task).2 = .ok .cut) := by
  cases hs : w.spread env deadline task with
  | mk v come =>
    have waits := (waits_spread hs).1
    unfold runTask
    rw [hs]
    cases come with
    | false => exact ⟨waits.investor, waits.exchange, .inr rfl⟩
    | true =>
      have still : v.investor.isDone (v.isRetired env) v.now task := by
        by_cases spread : task.isSpread
        · -- a sign-up depends on neither the time nor the exchange
          have signedIn : w.investor.isDone (v.isRetired env) v.now task := by
            cases task with
            | signup => exact done
            | signin => cases done
            | _ => cases spread
          rw [waits.investor]
          exact signedIn
        · have atOnce : w.spread env deadline task = (w, true) := by
            unfold World.spread delayOf
            rw [if_neg (by simp [spread])]
          rw [atOnce] at hs
          obtain ⟨rfl, -⟩ := Prod.mk.inj hs
          exact done
      simp only [Investor.begin_of_isDone still]
      exact ⟨waits.investor, waits.exchange, by simp⟩

theorem ComesTo.of_failure {failure : Failure}
    (h : ComesTo env deadline w task u (.ok (.ended (.error failure)))) :
    (¬ failure.isDesync → u.investor = w.investor) ∧
      ∃ ledger, u.investor = { w.investor with ledger } := by
  generalize he : (.ok (.ended (.error failure)) : Checked Composite.Ending) = ending at h
  cases h with
  | late => cases he
  | faults => cases he
  | skips => cases he
  | hangs => cases he
  | @answered v u c latency waits h takes comes now =>
    have investor : u.investor = w.investor := comes.investor.trans waits.investor
    have failed : (u.settle env c).2 = .ok (.error failure) := by
      cases hr : (u.settle env c).2 with
      | error fault => simp [hr, Except.map] at he
      | ok result => simpa [hr, Except.map, eq_comm] using he
    rw [← investor]
    exact Investor.receive_of_failure failed

section Recorded

variable {w u : World (Recorded σ)}

/-- A refusal on record ends its task for nothing, and nothing changes. -/
theorem ComesTo.of_refusal {ending : Checked Composite.Ending}
    (h : ComesTo env.recorded deadline w task u ending) (blank : w.exchange.record = [])
    {now : Nat} {c : Call} {r : c.Reply} (recorded : .replied now c r ∈ u.exchange.record)
    (refused : isRefusal c r) : ending = .ok (.ended (.ok 0)) ∧ u.investor = w.investor := by
  cases h with
  | late waits | faults waits =>
    rw [waits.exchange, blank] at recorded
    cases recorded
  | @skips v investor score waits h =>
    have same : v.exchange.record = [] := by rw [waits.exchange, blank]
    have none : Dealing.replied now c r ∈ v.exchange.record := recorded
    rw [same] at none
    cases none
  | @hangs v u c' waits h asks =>
    have asked : u.exchange.record = [.asked v.now c'] := by
      rw [asks.exchange]
      show Dealing.asked v.now c' :: v.exchange.record = _
      rw [waits.exchange, blank]
    rw [asked] at recorded
    have same := List.mem_singleton.mp recorded
    cases same
  | @answered v u c' latency waits h takes comes moment =>
    rw [record_settle waits takes comes moment, blank] at recorded
    simp only [List.mem_cons, Dealing.replied.injEq, reduceCtorEq, List.not_mem_nil, or_false]
      at recorded
    obtain ⟨-, rfl, same⟩ := recorded
    obtain rfl := eq_of_heq same
    have received : u.investor.receive u.now (env.recorded.wallClock u.now) c
        (env.recorded.exchange.reply c u.exchange).1 = (u.investor, .ok (.ok 0)) :=
      u.investor.receive_of_isRefusal _ refused
    rw [Course.settle_eq]
    simp only
    rw [received]
    exact ⟨rfl, comes.investor.trans waits.investor⟩

/-- A task that succeeds is a decision, has nothing to do, is refused, or earns its reward. -/
theorem ComesTo.score {score : Nat}
    (h : ComesTo env.recorded deadline w task u (.ok (.ended (.ok score)))) :
    task = .decision ∨ w.isDone env.recorded task ∨
      (∃ now c r, .replied now c r ∈ u.exchange.record ∧ isRefusal c r) ∨
      score = w.investor.rewards.of task := by
  generalize he : (.ok (.ended (.ok score)) : Checked Composite.Ending) = ending at h
  cases h with
  | late => cases he
  | faults => cases he
  | @skips v investor score' waits h =>
    by_cases decides : task = .decision
    · exact .inl decides
    · right; left
      have done : v.isDone env.recorded task := Investor.isDone_of_begin h decides
      exact isDone_of_waits waits done
  | hangs => cases he
  | @answered v u c latency waits h takes comes moment =>
    right; right
    have investor : u.investor = w.investor := comes.investor.trans waits.investor
    have succeeds : (u.settle env.recorded c).2 = .ok (.ok score) := by
      cases hr : (u.settle env.recorded c).2 with
      | error fault => simp [hr, Except.map] at he
      | ok result => simpa [hr, Except.map, eq_comm] using he
    have own : task = c.task := (Investor.begin_eq_ask h).2
    rw [Course.settle_eq] at succeeds
    rcases Investor.score_receive succeeds with refused | earned
    · left
      refine ⟨u.now, c, _, ?_, refused⟩
      rw [record_settle waits takes comes moment]
      exact List.mem_cons_self
    · right
      rw [earned, own, investor]

end Recorded

/-- Work that fails or is refused leaves no trace. A task that fails leaves the investor as it was,
or differs in the ledger alone, and only because more was found reserved than held. A task with
nothing to do makes no call; an order that is refused earns nothing; neither changes the investor.
All else that succeeds is a decision or earns its reward. -/
theorem fruitless_leaves_no_trace (env : Environment σ) (deadline : Deadline) (w : World σ)
    (task : Task) :
    let final := w.runTask env deadline task
    let passed := w.dealingsOf env deadline task
    (∀ failure, final.2 = .ok (.ended (.error failure)) →
      (¬ failure.isDesync → final.1.investor = w.investor) ∧
      ∃ ledger, final.1.investor = { w.investor with ledger }) ∧
    (w.isDone env task → final.1.investor = w.investor ∧ passed = [] ∧
      (final.2 = .ok (.ended (.ok 0)) ∨ final.2 = .ok .cut)) ∧
    (∀ now c r, .replied now c r ∈ passed → isRefusal c r →
      final.2 = .ok (.ended (.ok 0)) ∧ final.1.investor = w.investor) ∧
    ∀ score, final.2 = .ok (.ended (.ok score)) →
      task = .decision ∨ w.isDone env task ∨
      (∃ now c r, .replied now c r ∈ passed ∧ isRefusal c r) ∨
      score = w.investor.rewards.of task := by
  intro final passed
  have comes := comesTo_runTask env.recorded deadline w.recorded task
  have plain : w.runTask env deadline task =
      ((w.recorded.runTask env.recorded deadline task).1.plain,
        (w.recorded.runTask env.recorded deadline task).2) :=
    runTask_plain env deadline w.recorded task
  have ending : final.2 = (w.recorded.runTask env.recorded deadline task).2 := by
    show (w.runTask env deadline task).2 = _
    rw [plain]
  have investor : final.1.investor =
      (w.recorded.runTask env.recorded deadline task).1.investor := by
    show (w.runTask env deadline task).1.investor = _
    rw [plain]
    rfl
  refine ⟨?_, ?_, ?_, ?_⟩
  · intro failure fails
    rw [ending] at fails
    rw [fails] at comes
    rw [investor]
    exact comes.of_failure
  · intro done
    have still : w.recorded.isDone env.recorded task := done
    obtain ⟨same, exchange, stops⟩ := runTask_of_isDone deadline still
    have blank : passed = [] := congrArg Recorded.record exchange
    rw [investor, ending]
    exact ⟨same, blank, stops⟩
  · intro now c r recorded refused
    rw [ending, investor]
    exact comes.of_refusal rfl recorded refused
  · intro score succeeds
    rw [ending] at succeeds
    rw [succeeds] at comes
    exact comes.score

deriving instance DecidableEq for Composite.Ending

/-- An exchange whose list of orders has lost the first two. -/
def losesTwo : ScriptedExchange :=
  ScriptedExchange.initial.change (.canned .getOrders [.ok [Order.placed 3 .buy 1 100 .epoch]])

/-- A buy, a sell and a buy, all of them open. -/
def threeOrders : Ledger :=
  (((Ledger.new 500 5).recordPlaced (.placed 1 .buy 1 90 .epoch)).recordPlaced
    (.placed 2 .sell 1 110 .epoch)).recordPlaced (.placed 3 .buy 1 100 .epoch)

/-- A reconciliation has closed a buy in its copy of the list when it finds that a sell is lost. -/
theorem no_trace_of_lost_sell :
    ∃ inv,
      Investor.new "investor" ⟨500, 5, 1, 100, 1⟩ .standard Timing.standard (.ofSeed 0) = .ok inv ∧
      let holding := { inv with ledger := threeOrders }
      let final := (new holding losesTwo).runTask Course.scripted none .updateOrders
      Ledger.mergeOrder [.placed 3 .buy 1 100 .epoch] .epoch (.placed 1 .buy 1 90 .epoch) =
        .ok { Order.placed 1 .buy 1 90 .epoch with closedAt := some .epoch } ∧
      final.2 = .ok (.ended (.error (.sellOrderVanished 2))) ∧ final.1.investor = holding := by
  have rehearsal : (Investor.new "investor" ⟨500, 5, 1, 100, 1⟩ .standard Timing.standard
      (.ofSeed 0)).toOption.any fun inv =>
        decide (((new { inv with ledger := threeOrders } losesTwo).runTask Course.scripted none
          .updateOrders).2 = .ok (.ended (.error (.sellOrderVanished 2)))) := by decide
  obtain ⟨inv, made, rehearsal⟩ := exists_ok_of_any rehearsal
  have fails := of_decide_eq_true rehearsal
  have trace := (fruitless_leaves_no_trace Course.scripted none
    (new { inv with ledger := threeOrders } losesTwo) .updateOrders).1 _ fails
  exact ⟨inv, made, rfl, fails, trace.1 (by decide)⟩

end World

end TradingLoad
