import TradingLoad.Proofs.Run.Alone

namespace TradingLoad

/-- A reconciliation takes the list, and finds the books in order. -/
def Ledger.accepts (l : Ledger) (remote : List Order) (now : Timestamp) : Bool :=
  match (l.reconcile remote now).2 with
  | .ok (.ok _) => true
  | _ => false

/-- The reward for a reply that comes while the ledger is `l`. -/
def worth (rewards : Rewards) (l : Ledger) (at_ : Timestamp) : (c : Call) → c.Reply → Nat
  | .top, .ok _ => rewards.top
  | .signup, .ok _ => rewards.signup
  | .signup, .error failure => if failure.isAlreadyExists then rewards.signup else 0
  | .signin, .ok _ => rewards.signin
  | .info _, .ok _ => rewards.info
  | .getOrders, .ok orders => if l.accepts orders at_ then rewards.getOrders else 0
  | .addOrder _ _ _, .ok _ => rewards.addOrder
  | .deleteOrder _, .ok _ => rewards.deleteOrder
  | _, .error _ => 0

variable {σ : Type}

/-- What the replies on record are worth to an investor that had a given ledger before them. -/
def earned (env : Environment σ) (rewards : Rewards) (l : Ledger) : List Dealing → Nat
  | [] => 0
  | .replied now c r :: earlier =>
    worth rewards (l.after (operations env earlier)) (env.wallClock now) c r +
      earned env rewards l earlier
  | .asked _ _ :: earlier => earned env rewards l earlier
  | .retired :: earlier => earned env rewards l earlier

/-- What a task adds to the score of its composite. -/
def Composite.Ending.gain : Composite.Ending → Nat
  | .ended (.ok score) => score
  | _ => 0

/-- What a task adds, if anything comes of it. -/
def gain : Checked Composite.Ending → Nat
  | .ok ending => ending.gain
  | .error _ => 0

namespace Investor

variable (inv : Investor) (now : Nat) (at_ : Timestamp)

/-- A task adds what its reply is worth. -/
theorem gain_receive (c : Call) (r : c.Reply) :
    gain ((inv.receive now at_ c r).2.map .ended) = worth inv.rewards inv.ledger at_ c r := by
  cases c with
  | signup =>
    cases r with
    | ok _ => rfl
    | error failure =>
      simp only [receive, worth]
      by_cases existing : failure.isAlreadyExists
      · rw [if_pos existing, if_pos existing]
        rfl
      · rw [if_neg existing, if_neg existing]
        rfl
  | getOrders =>
    cases r with
    | error failure => rfl
    | ok orders =>
      simp only [receive, worth]
      cases h : (inv.ledger.reconcile orders at_).2 with
      | error fault =>
        have refused : inv.ledger.accepts orders at_ = false := by simp [Ledger.accepts, h]
        rw [refused]
        rfl
      | ok result =>
        cases result with
        | error failure =>
          have refused : inv.ledger.accepts orders at_ = false := by simp [Ledger.accepts, h]
          rw [refused]
          rfl
        | ok report =>
          have accepted : inv.ledger.accepts orders at_ = true := by simp [Ledger.accepts, h]
          rw [accepted]
          rfl
  | addOrder side amount price =>
    cases r with
    | ok order => rfl
    | error failure =>
      simp only [receive, worth]
      cases failure.isInsufficientBalance <;> rfl
  | deleteOrder id =>
    cases r with
    | ok _ => rfl
    | error failure =>
      simp only [receive, worth]
      cases failure.isNotFound <;> rfl
  | _ => cases r <;> rfl

end Investor

/-- Tasks that come to a fault: one of them does, after others that have succeeded, or the sum of
their scores is not a number. -/
theorem Composite.runTasks_eq_error {σ τ : Type} {name : τ → String}
    {perform : σ → τ → σ × Checked Ending} {r : Report} {tasks : List τ} {s u : σ} {fault : Fault}
    (h : runTasks name perform r tasks s = (u, .error fault)) (clean : r.failure = none) :
    ∃ before task after v report, tasks = before ++ task :: after ∧
      runTasks name perform r before s = (v, .ok (some report)) ∧ report.failure = none ∧
      (perform v task = (u, .error fault) ∨
        ∃ score, perform v task = (u, .ok (.ended (.ok score))) ∧
          ¬ InWord64 (report.score + score)) := by
  induction tasks generalizing r s with
  | nil => simp [runTasks] at h
  | cons task tasks ih =>
    unfold runTasks at h
    split at h
    · next v hv =>
      obtain ⟨rfl, hf⟩ := Prod.mk.inj h
      obtain rfl := Except.error.inj hf
      exact ⟨[], task, tasks, s, r, rfl, rfl, clean, .inl hv⟩
    · simp at h
    · simp at h
    · next v score hv =>
      split at h
      · next fault hs =>
        obtain ⟨rfl, -⟩ := Prod.mk.inj h
        refine ⟨[], task, tasks, s, r, rfl, rfl, clean, .inr ⟨score, hv, ?_⟩⟩
        intro small
        rw [Checked.addNat_eq_ok_iff.mpr ⟨small, rfl⟩] at hs
        cases hs
      · next total hs =>
        obtain ⟨before, task', after, v', report, rfl, first, clean', last⟩ := ih h clean
        refine ⟨task :: before, task', after, v', report, rfl, ?_, clean', last⟩
        unfold runTasks
        simp only [hv, hs]
        exact first

namespace World

variable {env : Environment σ} {deadline : Deadline} {rewards : Rewards} {l : Ledger}

/-- The record tells what the ledger has become, and the rewards are known. -/
structure Tallied (env : Environment σ) (rewards : Rewards) (l : Ledger)
    (w : World (Recorded σ)) : Prop where
  ledger : InLine env l w
  rewards : w.investor.rewards = rewards

theorem tallied_recorded (w : World σ) :
    Tallied env w.investor.rewards w.investor.ledger w.recorded := ⟨rfl, rfl⟩

theorem Tallied.comesTo {w u : World (Recorded σ)} {task : Task}
    {ending : Checked Composite.Ending} (h : ComesTo env.recorded deadline w task u ending)
    (tallied : Tallied env rewards l w) : Tallied env rewards l u := by
  refine ⟨tallied.ledger.comesTo h, ?_⟩
  have same : u.investor.rewards = w.investor.rewards :=
    h.keeps (fun _ _ _ => rfl) Investor.rewards_receive
  exact same.trans tallied.rewards

/-- A task adds to the score what its reply adds to the worth of the record. -/
theorem earned_comesTo {w u : World (Recorded σ)} {task : Task}
    {ending : Checked Composite.Ending} (h : ComesTo env.recorded deadline w task u ending)
    (tallied : Tallied env rewards l w) :
    earned env rewards l u.exchange.record =
      gain ending + earned env rewards l w.exchange.record := by
  cases h with
  | late waits =>
    rw [waits.exchange]
    exact (Nat.zero_add _).symm
  | faults waits =>
    rw [waits.exchange]
    exact (Nat.zero_add _).symm
  | @skips v investor score waits h =>
    obtain rfl := Investor.score_of_done h
    show earned env rewards l v.exchange.record = 0 + _
    rw [waits.exchange, Nat.zero_add]
  | @hangs v u c waits h asks =>
    rw [asks.exchange]
    show earned env rewards l v.exchange.record = 0 + _
    rw [waits.exchange, Nat.zero_add]
  | @answered v u c latency waits h takes comes now =>
    have investor : u.investor = w.investor := comes.investor.trans waits.investor
    have ledger : u.investor.ledger = l.after (operations env w.exchange.record) := by
      rw [investor]
      exact tallied.ledger
    have received := u.investor.gain_receive u.now (env.wallClock u.now) c
      (env.recorded.exchange.reply c u.exchange).1
    rw [record_settle waits takes comes now, earned, earned, operations_asked, ← ledger,
      ← tallied.rewards, ← investor, ← received]
    rfl

/-- At most one call is put on record while a task is run, and without one the task adds nothing. -/
theorem asked_comesTo {w u : World (Recorded σ)} {task : Task}
    {ending : Checked Composite.Ending} (h : ComesTo env.recorded deadline w task u ending) :
    u.exchange.record.countP Dealing.isAsked ≤ w.exchange.record.countP Dealing.isAsked + 1 ∧
      (u.exchange.record.countP Dealing.isAsked = w.exchange.record.countP Dealing.isAsked →
        gain ending = 0) := by
  cases h with
  | late waits =>
    rw [waits.exchange]
    exact ⟨Nat.le_succ _, fun _ => rfl⟩
  | faults waits =>
    rw [waits.exchange]
    exact ⟨Nat.le_succ _, fun _ => rfl⟩
  | @skips v investor score waits h =>
    obtain rfl := Investor.score_of_done h
    rw [waits.exchange]
    exact ⟨Nat.le_succ _, fun _ => rfl⟩
  | @hangs v u c waits h asks =>
    have asked : u.exchange.record = .asked v.now c :: w.exchange.record := by
      rw [asks.exchange, ← waits.exchange]
      rfl
    rw [asked, List.countP_cons_of_pos rfl]
    exact ⟨Nat.le_refl _, fun _ => rfl⟩
  | @answered v u c latency waits h takes comes now =>
    rw [record_settle waits takes comes now, List.countP_cons_of_neg Bool.false_ne_true,
      List.countP_cons_of_pos rfl]
    refine ⟨Nat.le_refl _, ?_⟩
    intro same
    exact absurd same (Nat.succ_ne_self _)

/-- Tasks that leave a report have a score worth their record. -/
theorem score_runTasks {r report : Composite.Report} {tasks : List Task}
    {w u : World (Recorded σ)} (tallied : Tallied env rewards l w)
    (score : r.score = earned env rewards l w.exchange.record)
    (h : Composite.runTasks Task.name (runTask env.recorded deadline) r tasks w =
      (u, .ok (some report))) :
    Tallied env rewards l u ∧ report.score = earned env rewards l u.exchange.record := by
  induction tasks generalizing r w with
  | nil =>
    have same : w = u ∧ r = report := by simpa [Composite.runTasks] using h
    obtain ⟨rfl, rfl⟩ := same
    exact ⟨tallied, score⟩
  | cons task tasks ih =>
    have comes := comesTo_runTask env.recorded deadline w task
    have after := tallied.comesTo comes
    have adds := earned_comesTo comes tallied
    unfold Composite.runTasks at h
    split at h
    · simp at h
    · simp at h
    · next v failure hv =>
      rw [hv] at after adds
      have same : v = u ∧ { r with failure := some (task.name, failure) } = report := by
        simpa using h
      obtain ⟨rfl, rfl⟩ := same
      refine ⟨after, ?_⟩
      have nothing : gain (.ok (.ended (.error failure))) = 0 := rfl
      show r.score = _
      rw [adds, nothing, Nat.zero_add, score]
    · next v gained hv =>
      rw [hv] at after adds
      split at h
      · simp at h
      · next total hs =>
        obtain ⟨-, rfl⟩ := Checked.addNat_eq_ok_iff.mp hs
        apply ih after _ h
        have something : gain (.ok (.ended (.ok gained))) = gained := rfl
        show r.score + gained = _
        rw [adds, something, score, Nat.add_comm]

/-- The score of a composite is what the replies on its record are worth, also when it fails midway.
There is no other fault than that of a task, reached by tasks that succeed, or a worth that is no
unsigned 64-bit number. A task makes one call at most, and earns nothing without one. -/
theorem score_eq_earned (env : Environment σ) (deadline : Deadline) (w : World σ)
    (c : Composite Task) :
    (∀ report, (w.runComposite env deadline c).2 = .ok (some report) →
      report.score =
        earned env w.investor.rewards w.investor.ledger (w.dealings env deadline c)) ∧
    (∀ fault, (w.runComposite env deadline c).2 = .error fault →
      InWord64 (earned env w.investor.rewards w.investor.ledger (w.dealings env deadline c)) →
      ∃ before task after v report, c.tasks = before ++ task :: after ∧
        w.runComposite env deadline { c with tasks := before } = (v, .ok (some report)) ∧
        report.failure = none ∧ (v.runTask env deadline task).2 = .error fault) ∧
    ∀ (v : World σ) (task : Task),
      (v.dealingsOf env deadline task).countP Dealing.isAsked ≤ 1 ∧
      ∀ score, (v.runTask env deadline task).2 = .ok (.ended (.ok score)) →
        score = earned env v.investor.rewards v.investor.ledger
          (v.dealingsOf env deadline task) ∧
        ((v.dealingsOf env deadline task).countP Dealing.isAsked = 0 → score = 0) := by
  have tallied : Tallied env w.investor.rewards w.investor.ledger w.recorded := tallied_recorded w
  have plain := runComposite_plain env deadline w.recorded c
  rw [plain_recorded] at plain
  refine ⟨?_, ?_, ?_⟩
  · intro report h
    rw [plain] at h
    have ends : Composite.runTasks Task.name (runTask env.recorded deadline) .empty c.tasks
        w.recorded = (_, .ok (some report)) := Prod.ext rfl h
    exact (score_runTasks tallied rfl ends).2
  · intro fault h small
    rw [plain] at h
    have stopped : Composite.runTasks Task.name (runTask env.recorded deadline) .empty c.tasks
        w.recorded = (_, .error fault) := Prod.ext rfl h
    obtain ⟨before, task, after, v, report, split, first, clean, last⟩ :=
      Composite.runTasks_eq_error stopped rfl
    have whole := runComposite_plain env deadline w.recorded { c with tasks := before }
    have begun : w.recorded.runComposite env.recorded deadline { c with tasks := before } =
        (v, .ok (some report)) := first
    have alone := runTask_plain env deadline v task
    rw [plain_recorded, begun] at whole
    refine ⟨before, task, after, v.plain, report, split, whole, clean, ?_⟩
    rcases last with faults | ⟨score, succeeds, overflows⟩
    · rw [alone, faults]
    · -- the sum of the scores so far would be what the record is worth
      obtain ⟨tallied', score'⟩ := score_runTasks tallied rfl first
      have adds := earned_comesTo (comesTo_runTask env.recorded deadline v task) tallied'
      rw [succeeds] at adds
      have total : report.score + score =
          earned env w.investor.rewards w.investor.ledger (w.dealings env deadline c) := by
        have something : gain (.ok (.ended (.ok score))) = score := rfl
        rw [score', dealings, Nat.add_comm, ← something]
        exact adds.symm
      rw [total] at overflows
      exact absurd small overflows
  · intro v task
    have comes := comesTo_runTask env.recorded deadline v.recorded task
    have alone := runTask_plain env deadline v.recorded task
    rw [plain_recorded] at alone
    obtain ⟨once, free⟩ := asked_comesTo comes
    refine ⟨once, ?_⟩
    intro score h
    rw [alone] at h
    have adds := earned_comesTo comes (tallied_recorded v)
    rw [show (v.recorded.runTask env.recorded deadline task).2 = _ from h] at adds free
    exact ⟨adds.symm, free⟩

/-- Sign-up and sign-in without a delay. -/
def promptSignIn : Timing := { Timing.standard with signupJitterMs := 0 }

/-- An exchange that lets nobody sign in. -/
def refusesSignIn : ScriptedExchange :=
  ScriptedExchange.initial.change (.canned .signin [.error (.status 500 "internal error")])

/-- The first composite fails at its fourth task, after three replies that are worth 1 each. -/
theorem score_eq_earned_before_refusal :
    ∃ inv started c report,
      Investor.new "investor" ⟨500, 0, 5, 100, 1⟩ .standard promptSignIn (.ofSeed 0) = .ok inv ∧
      inv.start = (started, .ok c) ∧
      ((new started refusesSignIn).runComposite Course.scripted none c).2 = .ok (some report) ∧
      report.failure = some ("signin", .status 500 "internal error") ∧ report.score = 3 := by
  have rehearsal : (Investor.new "investor" ⟨500, 0, 5, 100, 1⟩ .standard promptSignIn
      (.ofSeed 0)).toOption.any fun inv => inv.start.2.toOption.any fun c =>
        let w := new inv.start.1 refusesSignIn
        (w.runComposite Course.scripted none c).2.toOption.any fun ended => ended.any fun report =>
          decide (report.failure = some ("signin", .status 500 "internal error")) &&
          decide (earned Course.scripted w.investor.rewards w.investor.ledger
            (w.dealings Course.scripted none c) = 3) := by decide
  obtain ⟨inv, made, rehearsal⟩ := exists_ok_of_any rehearsal
  obtain ⟨c, starts, rehearsal⟩ := exists_ok_of_any rehearsal
  obtain ⟨ended, ends, reported⟩ := exists_ok_of_any rehearsal
  obtain ⟨report, rfl, rightly⟩ := (Option.any_eq_true _ _).mp reported
  simp only [Bool.and_eq_true, decide_eq_true_eq] at rightly
  obtain ⟨fails, earns⟩ := rightly
  have score := (score_eq_earned Course.scripted none (new inv.start.1 refusesSignIn) c).1 report
    ends
  exact ⟨inv, inv.start.1, c, report, made, Prod.ext rfl starts, ends, fails, score.trans earns⟩

end World

end TradingLoad
