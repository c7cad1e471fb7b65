import TradingLoad.Proofs.Drive.FailStop
import TradingLoad.Proofs.Run.Faults

namespace TradingLoad

theorem Investor.started_receive (inv : Investor) (now : Nat) (at_ : Timestamp) (c : Call)
    (r : c.Reply) : (inv.receive now at_ c r).1.started = inv.started := by
  obtain ⟨ledger, lastOrderAt, polling, market, pending, signedIn, same⟩ :=
    inv.receive_eq now at_ c r
  rw [same]

variable {σ : Type} {env : Environment σ} {start stop : Nat}

/-- It is between two moments, and so it was when the calls on record were made. -/
structure World.Punctual (start stop : Nat) (w : World (Recorded σ)) : Prop where
  since : start ≤ w.now
  inTime : w.now ≤ stop
  asked : ∀ t c, .asked t c ∈ w.exchange.record → start ≤ t ∧ t ≤ stop

namespace World.Punctual

variable {w v u : World (Recorded σ)}

theorem waits (h : Punctual start stop w) (waits : Waits (some stop) w v) :
    Punctual start stop v := by
  have later := waits.passes
  have inTime := waits.inTime stop rfl
  have since := h.since
  have before := h.inTime
  refine ⟨by omega, by omega, ?_⟩
  rw [waits.exchange]
  exact h.asked

/-- A dealing is put on record; if it is a call, it is made now. -/
theorem note (h : Punctual start stop w) {d : Dealing} (now : u.now = w.now)
    (noted : u.exchange.record = d :: w.exchange.record)
    (own : ∀ t c, d = .asked t c → t = w.now) : Punctual start stop u := by
  have since := h.since
  have inTime := h.inTime
  refine ⟨by omega, by omega, ?_⟩
  intro t c asked
  rw [noted] at asked
  rcases List.mem_cons.mp asked with latest | before
  · have here := own t c latest.symm
    omega
  · exact h.asked t c before

theorem ask (env : Environment σ) (h : Punctual start stop w) (c : Call) :
    Punctual start stop (w.ask env.recorded c) := by
  refine h.note (d := .asked w.now c) rfl rfl ?_
  intro t c' same
  cases same
  rfl

theorem comesTo {task : Task} {ending : Checked Composite.Ending}
    (h : ComesTo env.recorded (some stop) w task u ending) (punctual : Punctual start stop w) :
    Punctual start stop u := by
  cases h with
  | late waits => exact punctual.waits waits
  | faults waits => exact punctual.waits waits
  | skips waits =>
    have before := punctual.waits waits
    exact ⟨before.since, before.inTime, before.asked⟩
  | @hangs v u c waits h asks =>
    have asked := (punctual.waits waits).ask env c
    exact asked.waits asks
  | @answered v u c latency waits h takes comes now =>
    have asked := (punctual.waits waits).ask env c
    refine (asked.waits comes).note (d := .replied u.exchange.due c _) rfl rfl ?_
    intro t c' same
    cases same

end World.Punctual

namespace RunReport

theorem onlyOverflows_add (r : RunReport) (c : Composite.Report) : OnlyOverflows (r.add c) := by
  apply (OnlyOverflows.addNat _ _).bind
  intro score
  exact .ok _

end RunReport

/-- A composite that is handed out at a tick, to an investor that has started. -/
def Pass.IsOfTick (env : Environment σ) (p : Pass σ) : Prop :=
  ∃ v : World σ, v.investor.started = true ∧
    v.investor.next (v.isRetired env) = (p.began.investor, .ok (some p.composite)) ∧
    p.began = { v with investor := p.began.investor }

namespace Drive

variable {deadline tick : Nat} {ticker : Ticker} {r : RunReport}

open World (Punctual)

theorem punctual_ended {p : Pass (Recorded σ)} (h : Punctual start deadline p.began) :
    Punctual start deadline (p.ended env.recorded deadline) :=
  World.keeps_runTasks Punctual.comesTo h .empty p.composite.tasks

theorem punctual_left {p : Pass (Recorded σ)} (h : Punctual start deadline p.began) :
    Punctual start deadline (p.left env.recorded deadline) := by
  have ended : Punctual start deadline (p.ended env.recorded deadline) := punctual_ended h
  unfold Pass.left
  split
  · refine ended.note (d := .retired) rfl rfl ?_
    intro t c same
    cases same
  · exact ended

theorem punctual_of_ticks {w v : World (Recorded σ)} {p : Pass (Recorded σ)}
    (tick : Ticks env.recorded deadline ticker w v p) (h : Punctual start deadline w) :
    Punctual start deadline p.began := by
  have came := h.waits tick.waits
  rw [tick.began]
  exact ⟨came.since, came.inTime, came.asked⟩

theorem punctual_of_goes {w u : World (Recorded σ)} {ps : List (Pass (Recorded σ))}
    {result : Checked RunReport} (h : Goes env.recorded deadline ticker w r ps (u, result))
    (punctual : Punctual start deadline w) : Punctual start deadline u := by
  generalize hr : (u, result) = outcome at h
  -- by induction on the ticks: no wait is longer than up to the deadline, nor is that for a reply
  induction h with
  | ends waits why =>
    obtain ⟨rfl, -⟩ := Prod.mk.inj hr
    exact punctual.waits waits
  | closes tick h =>
    subst hr
    rw [h.world]
    exact punctual_ended (punctual_of_ticks tick punctual)
  | goesOn tick h add rest ih => exact ih (punctual_left (punctual_of_ticks tick punctual)) hr

theorem punctual_of_drives {w : World σ} {u : World (Recorded σ)} {ps : List (Pass (Recorded σ))}
    {result : Checked RunReport}
    (h : Drives env.recorded deadline tick w.recorded ps (u, result)) (ahead : w.now ≤ deadline) :
    Punctual w.now deadline u := by
  have blank {p : Pass (Recorded σ)} (begins : Begins w.recorded p) :
      Punctual w.now deadline p.began := by
    rw [begins.began]
    refine ⟨Nat.le_refl _, ahead, ?_⟩
    intro t c asked
    cases asked
  cases h with
  | closes begins h =>
    rw [h.world]
    exact punctual_ended (blank begins)
  | stuck begins h add zero => exact punctual_left (blank begins)
  | goesOn begins h add period rest => exact punctual_of_goes rest (punctual_left (blank begins))

/-- The passes follow one another between a moment and the deadline. -/
structure InARow (env : Environment σ) (deadline start : Nat) (ps : List (Pass σ)) : Prop where
  within : ∀ p ∈ ps, start ≤ p.began.now ∧ p.began.now ≤ (p.ended env deadline).now ∧
    (p.ended env deadline).now ≤ deadline
  apart : ps.Pairwise fun p q => (p.ended env deadline).now ≤ q.began.now

variable {w u v : World σ} {p : Pass σ} {ps : List (Pass σ)} {result : Checked RunReport}

theorem InARow.cons (since : start ≤ p.began.now) (before : p.began.now ≤ deadline)
    (rest : InARow env deadline (p.left env deadline).now ps) :
    InARow env deadline start (p :: ps) := by
  obtain ⟨later, inTime, -⟩ := @Pass.elapses_ended σ env deadline p
  have left := @Pass.now_left σ env deadline p
  have after : ∀ q ∈ ps, (p.ended env deadline).now ≤ q.began.now := by
    intro q mem
    rw [← left]
    exact (rest.within q mem).1
  refine ⟨?_, List.pairwise_cons.mpr ⟨after, rest.apart⟩⟩
  intro q mem
  rcases List.mem_cons.mp mem with rfl | mem
  · exact ⟨since, later, by omega⟩
  · have within := rest.within q mem
    have behind := after q mem
    exact ⟨by omega, within.2⟩

theorem InARow.nil : InARow env deadline start [] := ⟨by simp, .nil⟩

theorem Ticks.now_began (tick : Ticks env deadline ticker w v p) (ahead : w.now ≤ deadline) :
    w.now ≤ p.began.now ∧ p.began.now ≤ deadline ∧ (p.left env deadline).now ≤ deadline := by
  have passes := tick.waits.passes
  have inTime := tick.waits.inTime deadline rfl
  have began : p.began.now = v.now := by rw [tick.began]
  have left := tick.now_left.2.2
  omega

theorem inARow_of_goes (h : Goes env deadline ticker w r ps (u, result))
    (ahead : w.now ≤ deadline) : InARow env deadline w.now ps := by
  generalize (u, result) = outcome at h
  induction h with
  | ends waits why => exact .nil
  | closes tick h =>
    obtain ⟨since, before, -⟩ := tick.now_began ahead
    exact .cons since before .nil
  | goesOn tick h add rest ih =>
    obtain ⟨since, before, left⟩ := tick.now_began ahead
    exact .cons since before (ih left)

/-- There are no more ticks than periods up to the deadline, and one. -/
theorem length_of_goes (h : Goes env deadline ticker w r ps (u, result)) (any : ps ≠ []) :
    ticker.due + ps.length * ticker.period ≤ max w.now deadline + ticker.period := by
  generalize (u, result) = outcome at h
  -- by induction on the ticks: each of them puts off the next one by a period at least
  induction h with
  | ends waits why => exact absurd rfl any
  | closes tick h =>
    have due := tick.now_left.1
    rw [List.length_singleton]
    omega
  | @goesOn ticker w r v p report r' ps outcome tick h add rest ih =>
    obtain ⟨due, -, left⟩ := tick.now_left
    obtain ⟨next, period⟩ := due_take ticker v.now
    rw [List.length_cons, Nat.succ_mul]
    by_cases last : ps = []
    · rw [last, List.length_nil]
      omega
    · have more := ih last
      rw [period] at more
      omega

theorem started_left (started : p.began.investor.started = true) :
    (p.left env deadline).investor.started = true := by
  have ended : (p.ended env deadline).investor.started = true := by
    apply World.keeps_runTasks (P := fun w => w.investor.started = true) _ started
    intro w task u ending comes before
    have same : u.investor.started = w.investor.started :=
      comes.keeps (fun _ _ _ => rfl) Investor.started_receive
    exact same.trans before
  unfold Pass.left
  split
  · exact ended
  · exact ended

theorem Ticks.isOfTick (tick : Ticks env deadline ticker w v p)
    (started : w.investor.started = true) :
    p.IsOfTick env ∧ (p.left env deadline).investor.started = true := by
  have still : v.investor.started = true := by
    rw [tick.waits.investor]
    exact started
  have next : v.investor.next (v.isRetired env) = (p.began.investor, .ok (some p.composite)) := by
    rw [tick.active]
    exact tick.next
  refine ⟨⟨v, still, next, tick.began⟩, started_left ?_⟩
  obtain ⟨-, same, -⟩ := Investor.next_eq_ok next
  rw [same]
  exact still

theorem isOfTick_of_goes (h : Goes env deadline ticker w r ps (u, result))
    (started : w.investor.started = true) : ∀ p ∈ ps, p.IsOfTick env := by
  generalize (u, result) = outcome at h
  induction h with
  | ends waits why => simp
  | closes tick h =>
    intro p mem
    obtain rfl := List.mem_singleton.mp mem
    exact (tick.isOfTick started).1
  | goesOn tick h add rest ih =>
    obtain ⟨first, left⟩ := tick.isOfTick started
    intro p mem
    rcases List.mem_cons.mp mem with rfl | mem
    · exact first
    · exact ih left p mem

/-- The last pass is at fault: one of its tasks is, or the sum of the scores is out of range. -/
def Breaks (env : Environment σ) (deadline score : Nat) (ps : List (Pass σ)) (fault : Fault) :
    Prop :=
  fault.isOverflow ∧ ∃ before p, ps = before ++ [p] ∧
    (p.outcome env deadline = .error fault ∨
      ∃ report, p.outcome env deadline = .ok (some report) ∧
        ¬ InWord64 (score + ((reports env deadline ps).map Composite.Report.score).sum))

theorem Breaks.cons {score : Nat} {report : Composite.Report} {fault : Fault}
    (h : p.outcome env deadline = .ok (some report))
    (breaks : Breaks env deadline (score + report.score) ps fault) :
    Breaks env deadline score (p :: ps) fault := by
  obtain ⟨overflow, before, q, rfl, why⟩ := breaks
  refine ⟨overflow, p :: before, q, rfl, ?_⟩
  rcases why with faults | ⟨report', ends, large⟩
  · exact .inl faults
  · right
    refine ⟨report', ends, ?_⟩
    rw [reports_cons_some (Pass.report?_of_outcome h), List.map_cons, List.sum_cons,
      ← Nat.add_assoc]
    exact large

theorem Closes.breaks {fault : Fault} (h : Closes env deadline r p (u, .error fault)) :
    Breaks env deadline r.score [p] fault := by
  cases h with
  | faults h =>
    have overflow := World.onlyOverflows_runTasks .empty p.composite.tasks p.began fault h
    exact ⟨overflow, [], p, rfl, .inl h⟩
  | @overflows report fault h add =>
    have large := RunReport.add_eq_error add
    have overflow := RunReport.onlyOverflows_add r report fault add
    refine ⟨overflow, [], p, rfl, .inr ⟨report, h, ?_⟩⟩
    rw [reports_cons_some (Pass.report?_of_outcome h)]
    exact large

theorem breaks_of_goes {fault : Fault} (h : Goes env deadline ticker w r ps (u, .error fault)) :
    Breaks env deadline r.score ps fault := by
  generalize hr : (u, Except.error fault) = outcome at h
  -- the scores of the passes before add up in the report
  induction h with
  | ends waits why => cases hr
  | closes tick h =>
    subst hr
    exact h.breaks
  | goesOn tick h add rest ih =>
    have breaks := ih hr
    rw [RunReport.score_add add] at breaks
    exact breaks.cons h

theorem breaks_of_drives {fault : Fault} (h : Drives env deadline tick w ps (u, .error fault))
    (period : 1 ≤ tick) : Breaks env deadline 0 ps fault := by
  cases h with
  | closes begins h => exact h.breaks
  | stuck begins h add zero => omega
  | goesOn begins h add period rest =>
    have breaks := breaks_of_goes rest
    rw [RunReport.score_add add] at breaks
    exact breaks.cons h

/-- The passes are that of the first composite, and then those of ticks. -/
def StartsOnce (env : Environment σ) (w : World σ) (ps : List (Pass σ)) : Prop :=
  ∃ first rest, ps = first :: rest ∧
    w.investor.start = (first.began.investor, .ok first.composite) ∧
    first.began = { w with investor := first.began.investor } ∧ ∀ p ∈ rest, p.IsOfTick env

theorem startsOnce_of_drives (fresh : w.investor.started = false)
    (h : Drives env deadline tick w (passes env deadline tick w) (u, result)) :
    StartsOnce env w (passes env deadline tick w) := by
  have head : ∃ rest, passes env deadline tick w =
      ⟨{ w with investor := { w.investor with started := true } },
        ⟨Investor.startCapacity, Investor.startTasks ++ [.decision]⟩⟩ :: rest := by
    unfold passes
    rw [Investor.start_of_fresh fresh]
    simp only
    split
    · exact ⟨[], rfl⟩
    · split
      · exact ⟨[], rfl⟩
      · exact ⟨_, rfl⟩
  obtain ⟨rest, head⟩ := head
  refine ⟨_, rest, head, Investor.start_of_fresh fresh, rfl, ?_⟩
  rw [head] at h
  cases h with
  | closes begins h => simp
  | stuck begins h add zero => simp
  | goesOn begins h add period goes => exact isOfTick_of_goes goes (started_left rfl)

theorem inARow_of_drives (h : Drives env deadline tick w ps (u, result))
    (ahead : w.now ≤ deadline) : InARow env deadline w.now ps := by
  have now {p : Pass σ} (begins : Begins w p) : p.began.now = w.now := by rw [begins.began]
  cases h with
  | closes begins h =>
    have here := now begins
    exact .cons (by omega) (by omega) .nil
  | stuck begins h add zero =>
    have here := now begins
    exact .cons (by omega) (by omega) .nil
  | @goesOn p report r ps result begins h add period rest =>
    have here := now begins
    obtain ⟨-, inTime, -⟩ := @Pass.elapses_ended σ env deadline p
    rw [← Pass.now_left] at inTime
    exact .cons (by omega) (by omega) (inARow_of_goes rest (by omega))

theorem length_of_drives (h : Drives env deadline tick w ps (u, result)) (ahead : w.now ≤ deadline)
    (period : 1 ≤ tick) : ps.length ≤ (deadline - w.now) / tick + 2 := by
  cases h with
  | closes begins h => exact Nat.le_add_left 1 _
  | stuck begins h add zero => exact Nat.le_add_left 1 _
  | @goesOn p report r ps result begins h add _ rest =>
    rw [List.length_cons]
    by_cases last : ps = []
    · rw [last, List.length_nil]
      exact Nat.le_add_left_of_le (Nat.le_succ 1)
    · have fits := length_of_goes rest last
      have began : p.began.now = w.now := by rw [begins.began]
      obtain ⟨later, inTime, -⟩ := @Pass.elapses_ended σ env deadline p
      rw [← Pass.now_left] at later inTime
      simp only at fits
      have whole : (ps.length - 1) * tick ≤ deadline - w.now := by
        rw [Nat.sub_mul, Nat.one_mul]
        omega
      have few := (Nat.le_div_iff_mul_le period).mpr whole
      omega

/-- An investor that has been started before is not driven. -/
theorem run_of_started (env : Environment σ) (tick deadline : Nat) {w : World σ}
    (again : w.investor.started = true) :
    run env tick deadline w = (w, .ok (.new w.investor.account)) ∧
      passes env deadline tick w = [] := by
  have refused : w.investor.start =
      (w.investor, .error (.alreadyStarted w.investor.account)) := by
    simp only [Investor.start, Investor.startUndecided, again, if_true]
    rfl
  constructor
  · unfold run
    rw [refused]
  · unfold passes
    rw [refused]

/-- A drive that ticks, of any investor on any exchange, comes to its end by the deadline, after no
more composites than there is time for, and no call is made after the deadline. The first composite
is made once, before those of the ticks, and each of them begins when the one before it has ended.
The drive returns at the deadline or when the investor is found retired, unless a number is out of
range; an investor that has been started before is not driven. -/
theorem ends_by_deadline {tick : Nat} (env : Environment σ) (period : 1 ≤ tick)
    (ahead : w.now ≤ deadline) :
    let ps := passes env deadline tick w
    let final := run env tick deadline w
    (w.now ≤ final.1.now ∧ final.1.now ≤ deadline) ∧
    (∀ t c, .asked t c ∈ record env deadline tick w → w.now ≤ t ∧ t ≤ deadline) ∧
    (ps.length ≤ (deadline - w.now) / tick + 2 ∧ InARow env deadline w.now ps) ∧
    (w.investor.started = true → ps = [] ∧ final = (w, .ok (.new w.investor.account))) ∧
    (w.investor.started = false → Drives env deadline tick w ps final ∧ StartsOnce env w ps ∧
      ((∃ r, final.2 = .ok r ∧ (deadline ≤ final.1.now ∨ final.1.isRetired env)) ∨
        ∃ fault, final.2 = .error fault ∧ Breaks env deadline 0 ps fault)) := by
  intro ps final
  cases again : w.investor.started with
  | true =>
    obtain ⟨returns, none⟩ := run_of_started env tick deadline again
    have same : final = (w, .ok (.new w.investor.account)) := returns
    have blank : record env deadline tick w = [] := by
      have recorded : w.recorded.investor.started = true := again
      unfold record
      rw [(run_of_started env.recorded tick deadline recorded).1]
      rfl
    have idle : ps = [] := none
    rw [same, idle, blank]
    refine ⟨⟨Nat.le_refl _, ahead⟩, ?_, ⟨Nat.zero_le _, .nil⟩, fun _ => ⟨rfl, rfl⟩, ?_⟩
    · intro t c asked
      cases asked
    · intro fresh
      cases fresh
  | false =>
    have drives : Drives env deadline tick w ps (final.1, final.2) := drives_run tick again
    have recorded : w.recorded.investor.started = false := again
    have punctual : Punctual w.now deadline (run env.recorded tick deadline w.recorded).1 :=
      punctual_of_drives (drives_run tick recorded) ahead
    have plain : final.1 = (run env.recorded tick deadline w.recorded).1.plain :=
      congrArg Prod.fst (run_plain env deadline tick w.recorded)
    have now : final.1.now = (run env.recorded tick deadline w.recorded).1.now := by
      rw [plain]
      rfl
    refine ⟨?_, punctual.asked, ⟨length_of_drives drives ahead period,
      inARow_of_drives drives ahead⟩, ?_, ?_⟩
    · rw [now]
      exact ⟨punctual.since, punctual.inTime⟩
    · intro started
      cases started
    · intro _
      refine ⟨drives, startsOnce_of_drives again drives, ?_⟩
      cases returns : final.2 with
      | ok r =>
        rw [returns] at drives
        exact .inl ⟨r, rfl, (drive_counts drives).2.2⟩
      | error fault =>
        rw [returns] at drives
        exact .inr ⟨fault, rfl, breaks_of_drives drives period⟩

/-- An exchange that never answers. -/
def silent : Environment ScriptedExchange :=
  { Course.scripted with
    exchange := { ScriptedExchange.exchange with latency := fun _ _ => none } }

/-- An exchange that never answers has the drive end with the deadline; one that answers at once has
as many composites as there is time for. -/
theorem ends_on_silent_and_prompt_exchange :
    ∃ inv,
      Investor.new "investor" ⟨500, 0, 5, 100, 1⟩ .standard pollingAlways (.ofSeed 0) = .ok inv ∧
      let w := World.new inv .initial
      ((run silent 100 1000 w).1.now = 1000 ∧ ∃ r, (run silent 100 1000 w).2 = .ok r) ∧
      (passes Course.scripted 250 100 w).length = 250 / 100 + 2 ∧
      ∀ t c, .asked t c ∈ record Course.scripted 250 100 w → t ≤ 250 := by
  have rehearsal : (Investor.new "investor" ⟨500, 0, 5, 100, 1⟩ .standard pollingAlways
      (.ofSeed 0)).toOption.any fun inv =>
        (run silent 100 1000 (.new inv .initial)).2.toOption.isSome &&
        decide (1000 ≤ (run silent 100 1000 (.new inv .initial)).1.now) &&
        decide ((passes Course.scripted 250 100 (.new inv .initial)).length = 4) := by decide
  obtain ⟨inv, made, rehearsal⟩ := exists_ok_of_any rehearsal
  simp only [Bool.and_eq_true, decide_eq_true_eq] at rehearsal
  obtain ⟨⟨returns, late⟩, four⟩ := rehearsal
  obtain ⟨⟨-, inTime⟩, -⟩ :=
    @ends_by_deadline _ 1000 (.new inv .initial) 100 silent (by decide) (Nat.zero_le _)
  obtain ⟨-, asked, -⟩ :=
    @ends_by_deadline _ 250 (.new inv .initial) 100 Course.scripted (by decide) (Nat.zero_le _)
  refine ⟨inv, made, ⟨Nat.le_antisymm inTime late, ?_⟩, four, ?_⟩
  · cases result : (run silent 100 1000 (.new inv .initial)).2 with
    | error fault =>
      rw [result] at returns
      cases returns
    | ok r => exact ⟨r, rfl⟩
  · intro t c calls
    exact (asked t c calls).2

/-- An exchange with a bid at the limit of what a price can be. -/
def extremeBid : ScriptedExchange := ScriptedExchange.initial.change (.book 0 0x7fffffffffffffff)

/-- The price halfway to an extreme bid is out of range, and the drive does not return. -/
theorem no_return_at_extreme_bid :
    ∃ inv, Investor.new "investor" ⟨500, 0, 5, 100, 1⟩ .standard
        { pollingAlways with orderUpdateIntervalMs := 0 } (.ofSeed 0) = .ok inv ∧
      let w := World.new inv extremeBid
      1 ≤ 100 ∧ w.now ≤ 1000 ∧ (run Course.scripted 100 1000 w).2 = .error .addOverflow ∧
        ¬ ∃ r, (run Course.scripted 100 1000 w).2 = .ok r := by
  have rehearsal : (Investor.new "investor" ⟨500, 0, 5, 100, 1⟩ .standard
      { pollingAlways with orderUpdateIntervalMs := 0 } (.ofSeed 0)).toOption.any fun inv =>
        decide ((run Course.scripted 100 1000 (.new inv extremeBid)).2 = .error .addOverflow) := by
    decide
  obtain ⟨inv, made, rehearsal⟩ := exists_ok_of_any rehearsal
  have ends := of_decide_eq_true rehearsal
  refine ⟨inv, made, by decide, Nat.zero_le _, ends, ?_⟩
  rintro ⟨r, returns⟩
  rw [ends] at returns
  cases returns

end Drive

end TradingLoad
