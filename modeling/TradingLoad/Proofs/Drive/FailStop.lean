import TradingLoad.Proofs.Drive.Passes
import Mathlib.Data.List.Basic

namespace TradingLoad

/-- A report after some composites are added to one. -/
structure RunReport.Counts (r : RunReport) (cs : List Composite.Report) (r' : RunReport) :
    Prop where
  score : r'.score = r.score + (cs.map Composite.Report.score).sum
  completed : r'.completed = r.completed + (cs.map Composite.Report.completed).sum
  errors : r'.errors = r.errors + cs.countP fun c => !c.isSuccess
  violations : r'.violations = r.violations + cs.countP Drive.isViolation

namespace RunReport

variable {r r' : RunReport} {c : Composite.Report}

theorem add_eq_error {fault : Fault} (h : r.add c = .error fault) :
    ¬ InWord64 (r.score + c.score) := by
  intro small
  have sum : Checked.addNat r.score c.score = .ok (r.score + c.score) :=
    Checked.addNat_eq_ok_iff.mpr ⟨small, rfl⟩
  simp [add, sum, bind, Except.bind, pure, Except.pure] at h

theorem counts_add (h : r.add c = .ok r') : Counts r [c] r' := by
  unfold add at h
  cases sum : Checked.addNat r.score c.score with
  | error fault => simp [sum, bind, Except.bind] at h
  | ok total =>
    obtain ⟨-, rfl⟩ := Checked.addNat_eq_ok_iff.mp sum
    simp only [sum, bind, Except.bind, pure, Except.pure, Except.ok.injEq] at h
    cases failure : c.failure with
    | none =>
      have success : c.isSuccess = true := by simp [Composite.Report.isSuccess, failure]
      have fine : Drive.isViolation c = false := by simp [Drive.isViolation, failure]
      rw [failure] at h
      subst h
      constructor <;> simp [success, fine]
    | some failed =>
      have fails : c.isSuccess = false := by simp [Composite.Report.isSuccess, failure]
      have violation : Drive.isViolation c = failed.2.isConsistencyViolation := by
        simp [Drive.isViolation, failure]
      rw [failure] at h
      subst h
      constructor <;> simp [fails, violation, List.countP_cons]

theorem score_add (h : r.add c = .ok r') : r'.score = r.score + c.score := by
  have added := (counts_add h).score
  simpa using added

theorem Counts.nil (r : RunReport) (retired : Bool) : Counts r [] { r with retired } :=
  ⟨rfl, rfl, rfl, rfl⟩

theorem Counts.cons {r₁ r₂ : RunReport} {cs : List Composite.Report} (h : Counts r [c] r₁)
    (k : Counts r₁ cs r₂) : Counts r (c :: cs) r₂ := by
  obtain ⟨score, completed, errors, violations⟩ := h
  obtain ⟨score', completed', errors', violations'⟩ := k
  simp only [List.map_cons, List.map_nil, List.sum_cons, List.sum_nil] at score completed
  constructor
  · simp only [List.map_cons, List.sum_cons]
    omega
  · simp only [List.map_cons, List.sum_cons]
    omega
  · rw [List.countP_cons] at errors ⊢
    simp only [List.countP_nil] at errors
    omega
  · rw [List.countP_cons] at violations ⊢
    simp only [List.countP_nil] at violations
    omega

end RunReport

namespace Drive

variable {σ : Type} (env : Environment σ) (deadline : Nat)

/-- What comes of the passes that end in time. -/
def reports (ps : List (Pass σ)) : List Composite.Report := ps.filterMap (·.report? env deadline)

/-- The exchange is left alone from one pass to the next, but for the retirement behind a violation,
before which the last one may end the drive. -/
def Linked : σ → List (Pass σ) → σ → Prop
  | x, [], y => y = x
  | x, p :: ps, y => p.began.exchange = x ∧
      (Linked (p.left env deadline).exchange ps y ∨ ps = [] ∧ y = (p.ended env deadline).exchange)

variable {env deadline} {ticker : Ticker} {w u : World σ} {r : RunReport} {p : Pass σ}
  {ps : List (Pass σ)} {result : Checked RunReport}

theorem reports_cons_none (h : p.report? env deadline = none) :
    reports env deadline (p :: ps) = reports env deadline ps := List.filterMap_cons_none h

theorem reports_cons_some {c : Composite.Report} (h : p.report? env deadline = some c) :
    reports env deadline (p :: ps) = c :: reports env deadline ps := List.filterMap_cons_some h

theorem isViolation_of_report {c : Composite.Report} (h : p.report? env deadline = some c) :
    p.isViolation env deadline = isViolation c := by
  unfold Pass.isViolation
  rw [h]
  rfl

/-- Nothing is added for a pass that closes a drive. -/
theorem Closes.of_ok {r' : RunReport} (h : Closes env deadline r p (u, .ok r')) :
    p.report? env deadline = none ∧ r' = { r with retired := u.isRetired env } ∧
      deadline ≤ u.now := by
  cases h with
  | cut h => exact ⟨Pass.report?_of_outcome h, rfl, Pass.elapses_ended.2.2 h⟩

/-- A violation does not close a drive, unless the sum of the scores is out of range. -/
theorem Closes.of_violation (h : Closes env deadline r p (u, result))
    (violates : p.isViolation env deadline) :
    ¬ InWord64 (r.score + ((reports env deadline [p]).map Composite.Report.score).sum) := by
  cases h with
  | faults h => simp [Pass.isViolation, Pass.report?_of_fault h] at violates
  | cut h => simp [Pass.isViolation, Pass.report?_of_outcome h] at violates
  | @overflows report fault h add =>
    rw [reports_cons_some (Pass.report?_of_outcome h)]
    exact RunReport.add_eq_error add

theorem Linked.last {x y : σ} {before : List (Pass σ)}
    (h : Linked env deadline x (before ++ [p]) y) :
    y = (p.ended env deadline).exchange ∨ y = (p.left env deadline).exchange := by
  induction before generalizing x with
  | nil =>
    rcases h.2 with same | ⟨-, same⟩
    · exact .inr same
    · exact .inl same
  | cons q before ih =>
    rcases h.2 with rest | ⟨none, -⟩
    · exact ih rest
    · simp at none

theorem counts_of_goes {r' : RunReport} (h : Goes env deadline ticker w r ps (u, .ok r')) :
    RunReport.Counts r (reports env deadline ps) r' ∧ r'.retired = u.isRetired env ∧
      (deadline ≤ u.now ∨ u.isRetired env) := by
  generalize hr : (u, Except.ok r') = result at h
  induction h with
  | @ends ticker w r v waits why =>
    obtain ⟨rfl, he⟩ := Prod.mk.inj hr
    obtain rfl := Except.ok.inj he
    exact ⟨.nil r _, rfl, why⟩
  | @closes ticker w r v p result tick h =>
    subst hr
    obtain ⟨none, rfl, up⟩ := h.of_ok
    rw [reports_cons_none none]
    exact ⟨.nil r _, rfl, .inl up⟩
  | @goesOn ticker w r v p report r₁ ps result tick h add rest ih =>
    obtain ⟨counts, ending⟩ := ih hr
    rw [reports_cons_some (Pass.report?_of_outcome h)]
    exact ⟨(RunReport.counts_add add).cons counts, ending⟩

theorem linked_of_goes (h : Goes env deadline ticker w r ps (u, result)) :
    Linked env deadline w.exchange ps u.exchange := by
  generalize hr : (u, result) = outcome at h
  induction h with
  | @ends ticker w r v waits why =>
    obtain ⟨rfl, -⟩ := Prod.mk.inj hr
    exact waits.exchange
  | @closes ticker w r v p result tick h =>
    subst hr
    refine ⟨?_, .inr ⟨rfl, ?_⟩⟩
    · rw [tick.began]
      exact tick.waits.exchange
    · rw [h.world]
  | @goesOn ticker w r v p report r₁ ps result tick h add rest ih =>
    refine ⟨?_, .inl (ih hr)⟩
    rw [tick.began]
    exact tick.waits.exchange

/-- Nothing is done for an investor that has retired. -/
theorem goes_of_retired (h : Goes env deadline ticker w r ps (u, result))
    (retired : w.isRetired env) :
    ps = [] ∧ u.exchange = w.exchange ∧ ∃ r', result = .ok r' ∧ r'.retired = true := by
  have out {v : World σ} (waits : World.Waits (some deadline) w v) : v.isRetired env = true := by
    unfold World.isRetired
    rw [waits.exchange]
    exact retired
  cases h with
  | ends waits why => exact ⟨rfl, waits.exchange, _, rfl, out waits⟩
  | closes tick h => exact absurd (out tick.waits) (by simp [tick.active])
  | goesOn tick h add rest => exact absurd (out tick.waits) (by simp [tick.active])

/-- Behind a violation the exchange is told to retire the investor, and nothing else. -/
theorem exchange_left (violates : p.isViolation env deadline) :
    (p.left env deadline).exchange = env.exchange.retire (p.ended env deadline).exchange := by
  unfold Pass.left
  rw [if_pos violates]
  rfl

/-- A violation among the passes is the last of them, and if the scores are in range the investor is
retired behind it, and the drive returns. -/
def StopsAtViolation (env : Environment σ) (deadline score : Nat) (ps : List (Pass σ)) (u : World σ)
    (result : Checked RunReport) : Prop :=
  ∀ before p after, ps = before ++ p :: after → p.isViolation env deadline →
    after = [] ∧
      (InWord64 (score + ((reports env deadline ps).map Composite.Report.score).sum) →
        u.exchange = env.exchange.retire (p.ended env deadline).exchange ∧
          ∃ r, result = .ok r ∧ r.retired = true)

theorem Closes.stops (h : Closes env deadline r p (u, result)) :
    StopsAtViolation env deadline r.score [p] u result := by
  intro before q after split violates
  obtain ⟨rfl, rfl, rfl⟩ : before = [] ∧ p = q ∧ after = [] := by
    cases before <;> simp_all
  exact ⟨rfl, fun small => absurd small (h.of_violation violates)⟩

theorem stops_of_goesOn (stays : ∀ x, env.exchange.isRetired (env.exchange.retire x))
    {report : Composite.Report} {r' : RunReport} (h : p.outcome env deadline = .ok (some report))
    (add : r.add report = .ok r')
    (rest : Goes env deadline ticker (p.left env deadline) r' ps (u, result))
    (stops : StopsAtViolation env deadline r'.score ps u result) :
    StopsAtViolation env deadline r.score (p :: ps) u result := by
  intro before q after split violates
  cases before with
  | nil =>
    obtain ⟨rfl, rfl⟩ : p = q ∧ ps = after := by simpa using split
    have retired : (p.left env deadline).isRetired env := by
      unfold World.isRetired
      rw [exchange_left violates]
      exact stays _
    obtain ⟨none, same, returns⟩ := goes_of_retired rest retired
    exact ⟨none, fun _ => ⟨same.trans (exchange_left violates), returns⟩⟩
  | cons first before =>
    obtain ⟨rfl, rfl⟩ : p = first ∧ ps = before ++ q :: after := by simpa using split
    obtain ⟨last, returns⟩ := stops before q after rfl violates
    refine ⟨last, ?_⟩
    intro small
    apply returns
    rw [reports_cons_some (Pass.report?_of_outcome h), List.map_cons, List.sum_cons] at small
    rw [RunReport.score_add add, Nat.add_assoc]
    exact small

theorem stops_of_goes (stays : ∀ x, env.exchange.isRetired (env.exchange.retire x))
    (h : Goes env deadline ticker w r ps (u, result)) :
    StopsAtViolation env deadline r.score ps u result := by
  generalize hr : (u, result) = outcome at h
  induction h with
  | ends => simp [StopsAtViolation]
  | closes tick h =>
    subst hr
    exact h.stops
  | goesOn tick h add rest ih =>
    subst hr
    exact stops_of_goesOn stays h add rest (ih rfl)

theorem countP_violations_le
    (last : ∀ before p after, ps = before ++ p :: after → p.isViolation env deadline → after = []) :
    (reports env deadline ps).countP isViolation ≤ 1 := by
  induction ps with
  | nil => exact Nat.zero_le 1
  | cons p ps ih =>
    have rest := ih fun before q after split => last (p :: before) q after (by rw [split]; rfl)
    cases h : p.report? env deadline with
    | none =>
      rw [reports_cons_none h]
      exact rest
    | some c =>
      rw [reports_cons_some h]
      cases violates : isViolation c with
      | false =>
        rw [List.countP_cons_of_neg (by simp [violates])]
        exact rest
      | true =>
        obtain rfl := last [] p ps rfl ((isViolation_of_report h).trans violates)
        rw [List.countP_cons_of_pos violates]
        exact Nat.le_refl 1

theorem drive_counts {tick : Nat} {r' : RunReport}
    (h : Drives env deadline tick w ps (u, .ok r')) :
    RunReport.Counts (.new w.investor.account) (reports env deadline ps) r' ∧
      r'.retired = u.isRetired env ∧ (deadline ≤ u.now ∨ u.isRetired env) := by
  cases h with
  | closes begins h =>
    obtain ⟨none, rfl, up⟩ := h.of_ok
    rw [reports_cons_none none]
    exact ⟨.nil _ _, rfl, .inl up⟩
  | goesOn begins h add period rest =>
    obtain ⟨counts, ending⟩ := counts_of_goes rest
    rw [reports_cons_some (Pass.report?_of_outcome h)]
    exact ⟨(RunReport.counts_add add).cons counts, ending⟩

theorem drive_linked {tick : Nat} (h : Drives env deadline tick w ps (u, result)) :
    Linked env deadline w.exchange ps u.exchange := by
  cases h with
  | closes begins h =>
    refine ⟨?_, .inr ⟨rfl, ?_⟩⟩
    · rw [begins.began]
    · rw [h.world]
  | stuck begins h add zero =>
    refine ⟨?_, .inl rfl⟩
    rw [begins.began]
  | goesOn begins h add period rest =>
    refine ⟨?_, .inl (linked_of_goes rest)⟩
    rw [begins.began]

theorem drive_stops (stays : ∀ x, env.exchange.isRetired (env.exchange.retire x)) {tick : Nat}
    (h : Drives env deadline tick w ps (u, result)) {before after : List (Pass σ)}
    (split : ps = before ++ p :: after) (violates : p.isViolation env deadline) :
    after = [] ∧
      (InWord64 ((reports env deadline ps).map Composite.Report.score).sum →
        u.exchange = env.exchange.retire (p.ended env deadline).exchange ∧
          (1 ≤ tick → ∃ r, result = .ok r ∧ r.retired = true)) := by
  have returns (stops : StopsAtViolation env deadline (RunReport.new w.investor.account).score ps u
      result) : after = [] ∧
      (InWord64 ((reports env deadline ps).map Composite.Report.score).sum →
        u.exchange = env.exchange.retire (p.ended env deadline).exchange ∧
          (1 ≤ tick → ∃ r, result = .ok r ∧ r.retired = true)) := by
    obtain ⟨last, returns⟩ := stops before p after split violates
    rw [show (RunReport.new w.investor.account).score = 0 from rfl, Nat.zero_add] at returns
    exact ⟨last, fun small => ⟨(returns small).1, fun _ => (returns small).2⟩⟩
  cases h with
  | closes begins h => exact returns h.stops
  | goesOn begins h add period rest =>
    exact returns (stops_of_goesOn stays h add rest (stops_of_goes stays rest))
  | @stuck q report r begins h add none =>
    obtain ⟨rfl, rfl, rfl⟩ : before = [] ∧ q = p ∧ after = [] := by
      cases before <;> simp_all
    refine ⟨rfl, fun _ => ⟨exchange_left violates, ?_⟩⟩
    intro positive
    omega

/-- The report of a drive adds up the composites that end before the deadline, and a drive that
returns has come to the deadline or finds its investor retired. A violation is the last thing that
happens; if the scores are in range the exchange is told to retire the investor, and if the driver
ticks at all it returns. Otherwise the driver leaves the exchange alone. -/
theorem report_adds_up_and_stops {account : String} {profile : InvestorProfile} {rewards : Rewards}
    {timing : Timing} {source : Random.Stream}
    (made : Investor.new account profile rewards timing source = .ok w.investor)
    (stays : ∀ x, env.exchange.isRetired (env.exchange.retire x)) (tick : Nat) :
    let ps := passes env deadline tick w
    let cs := reports env deadline ps
    let final := run env tick deadline w
    (∀ r, final.2 = .ok r →
      r.score = (cs.map Composite.Report.score).sum ∧
      r.completed = (cs.map Composite.Report.completed).sum ∧
      r.errors = cs.countP (fun c => !c.isSuccess) ∧ r.violations = cs.countP isViolation ∧
      r.retired = final.1.isRetired env ∧ (deadline ≤ final.1.now ∨ final.1.isRetired env)) ∧
    cs.countP isViolation ≤ 1 ∧ Linked env deadline w.exchange ps final.1.exchange ∧
    ∀ before p after, ps = before ++ p :: after → p.isViolation env deadline →
      after = [] ∧
      (final.1.exchange = (p.ended env deadline).exchange ∨
        final.1.exchange = env.exchange.retire (p.ended env deadline).exchange) ∧
      (InWord64 (cs.map Composite.Report.score).sum →
        final.1.exchange = env.exchange.retire (p.ended env deadline).exchange ∧
        (1 ≤ tick → ∃ r, final.2 = .ok r ∧ r.retired = true)) := by
  intro ps cs final
  have fresh : w.investor.started = false := Investor.started_of_new made
  have drives : Drives env deadline tick w ps (final.1, final.2) := drives_run tick fresh
  have linked : Linked env deadline w.exchange ps final.1.exchange := drive_linked drives
  refine ⟨?_, ?_, linked, ?_⟩
  · intro r returns
    rw [returns] at drives
    obtain ⟨counts, retired, ending⟩ := drive_counts drives
    refine ⟨?_, ?_, ?_, ?_, retired, ending⟩
    · exact counts.score.trans (Nat.zero_add _)
    · exact counts.completed.trans (Nat.zero_add _)
    · exact counts.errors.trans (Nat.zero_add _)
    · exact counts.violations.trans (Nat.zero_add _)
  · apply countP_violations_le
    intro before p after split violates
    exact (drive_stops stays drives split violates).1
  · intro before p after split violates
    obtain ⟨rfl, returns⟩ := drive_stops stays drives split violates
    rw [split] at linked
    have last := linked.last
    rw [exchange_left violates] at last
    exact ⟨rfl, last, returns⟩

theorem retired_retire_scripted (x : ScriptedExchange) :
    Course.scripted.exchange.isRetired (Course.scripted.exchange.retire x) := rfl

/-- Sign-up without a delay, and a poll in every composite. -/
def pollingAlways : Timing := { Timing.standard with pollingIntervalMs := 0, signupJitterMs := 0 }

/-- An exchange that has lost a sell order when the orders are first fetched. -/
def losesAtOnce : ScriptedExchange :=
  ScriptedExchange.initial.change (.canned .getOrders [.error (.sellOrderVanished 3)])

/-- The first composite finds that a sell order is lost, after four tasks that succeed. -/
theorem report_adds_up_after_loss :
    ∃ inv r,
      Investor.new "investor" ⟨500, 0, 5, 100, 1⟩ .standard pollingAlways (.ofSeed 0) = .ok inv ∧
      (run Course.scripted 100 1000 (.new inv losesAtOnce)).2 = .ok r ∧
      r.completed = 4 ∧ r.violations = 1 ∧ r.retired = true := by
  have rehearsal : (Investor.new "investor" ⟨500, 0, 5, 100, 1⟩ .standard pollingAlways
      (.ofSeed 0)).toOption.any fun inv =>
        let ps := passes Course.scripted 1000 100 (.new inv losesAtOnce)
        decide (ps.length = 1) && ps.all (·.isViolation Course.scripted 1000) &&
        decide ((reports Course.scripted 1000 ps).map Composite.Report.score = [4]) &&
        decide ((reports Course.scripted 1000 ps).map Composite.Report.completed = [4]) &&
        decide ((reports Course.scripted 1000 ps).countP isViolation = 1) := by decide
  obtain ⟨inv, made, rehearsal⟩ := exists_ok_of_any rehearsal
  simp only [Bool.and_eq_true, decide_eq_true_eq] at rehearsal
  obtain ⟨⟨⟨⟨one, violates⟩, scores⟩, completed⟩, violations⟩ := rehearsal
  obtain ⟨p, only⟩ := List.length_eq_one_iff.mp one
  rw [only] at violates scores completed violations
  have new : Investor.new "investor" ⟨500, 0, 5, 100, 1⟩ .standard pollingAlways (.ofSeed 0) =
      .ok (World.new inv losesAtOnce).investor := made
  obtain ⟨counts, -, -, stops⟩ :=
    @report_adds_up_and_stops _ Course.scripted 1000 _ _ _ _ _ _ new retired_retire_scripted 100
  rw [only] at counts stops
  rw [scores, completed, violations] at counts
  have small : InWord64 ((reports Course.scripted 1000 [p]).map Composite.Report.score).sum := by
    rw [scores]
    decide
  obtain ⟨-, -, returns⟩ := stops [] p [] rfl (List.all_eq_true.mp violates p List.mem_cons_self)
  obtain ⟨r, ends, retired⟩ := (returns small).2 (by decide)
  obtain ⟨-, completed', -, violations', -⟩ := counts r ends
  exact ⟨inv, r, made, ends, completed', violations', retired⟩

/-- All rewards are for the visit and the polls, and the first composite earns as much as there is
room for. -/
def hugeRewards : Rewards :=
  { top := 0xfffffffffffffffe, signup := 0, signin := 0, info := 1, getOrders := 0, addOrder := 0,
    deleteOrder := 0 }

/-- An exchange that has lost a sell order when the orders are fetched for the second time. -/
def losesLater : ScriptedExchange :=
  ScriptedExchange.initial.change (.canned .getOrders [.ok [], .error (.sellOrderVanished 3)])

/-- A violation, and yet no return: the driver cannot tick, or the score is out of range. -/
theorem violation_without_return :
    (∃ inv p,
      Investor.new "investor" ⟨500, 0, 5, 100, 1⟩ .standard pollingAlways (.ofSeed 0) = .ok inv ∧
      passes Course.scripted 1000 0 (.new inv losesAtOnce) = [p] ∧
      p.isViolation Course.scripted 1000 ∧
      (run Course.scripted 0 1000 (.new inv losesAtOnce)).2 = .error .zeroPeriod) ∧
    ∃ inv p q,
      Investor.new "investor" ⟨500, 0, 5, 100, 1⟩ hugeRewards pollingAlways (.ofSeed 0) = .ok inv ∧
      passes Course.scripted 1000 100 (.new inv losesLater) = [p, q] ∧
      q.isViolation Course.scripted 1000 ∧
      (run Course.scripted 100 1000 (.new inv losesLater)).2 = .error .addOverflow := by
  have without_tick : (Investor.new "investor" ⟨500, 0, 5, 100, 1⟩ .standard pollingAlways
      (.ofSeed 0)).toOption.any fun inv =>
        let ps := passes Course.scripted 1000 0 (.new inv losesAtOnce)
        decide (ps.length = 1) && ps.all (·.isViolation Course.scripted 1000) &&
        decide ((run Course.scripted 0 1000 (.new inv losesAtOnce)).2 = .error .zeroPeriod) := by
    decide
  have out_of_range : (Investor.new "investor" ⟨500, 0, 5, 100, 1⟩ hugeRewards pollingAlways
      (.ofSeed 0)).toOption.any fun inv =>
        let ps := passes Course.scripted 1000 100 (.new inv losesLater)
        decide (ps.length = 2) && (ps.drop 1).all (·.isViolation Course.scripted 1000) &&
        decide ((run Course.scripted 100 1000 (.new inv losesLater)).2 = .error .addOverflow) := by
    decide
  constructor
  · obtain ⟨inv, made, rehearsal⟩ := exists_ok_of_any without_tick
    simp only [Bool.and_eq_true, decide_eq_true_eq] at rehearsal
    obtain ⟨⟨one, violates⟩, ends⟩ := rehearsal
    obtain ⟨p, only⟩ := List.length_eq_one_iff.mp one
    rw [only] at violates
    exact ⟨inv, p, made, only, List.all_eq_true.mp violates p List.mem_cons_self, ends⟩
  · obtain ⟨inv, made, rehearsal⟩ := exists_ok_of_any out_of_range
    simp only [Bool.and_eq_true, decide_eq_true_eq] at rehearsal
    obtain ⟨⟨two, violates⟩, ends⟩ := rehearsal
    obtain ⟨p, q, both⟩ := List.length_eq_two.mp two
    rw [both] at violates
    exact ⟨inv, p, q, made, both, List.all_eq_true.mp violates q List.mem_cons_self, ends⟩

end Drive

end TradingLoad
