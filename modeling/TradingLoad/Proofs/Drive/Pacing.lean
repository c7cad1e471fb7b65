import TradingLoad.Proofs.Drive.Passes
import TradingLoad.Proofs.Run.Pacing

namespace TradingLoad

/-- Moments an interval apart, the latest first, fit into the time up to the latest one. -/
theorem length_mul_le_of_apart {interval start stop : Nat} {moments : List Nat}
    (apart : moments.Pairwise fun later earlier => earlier + interval ≤ later)
    (within : ∀ t ∈ moments, start ≤ t ∧ t ≤ stop) :
    start + moments.length * interval ≤ max start stop + interval := by
  induction moments generalizing stop with
  | nil =>
    rw [List.length_nil, Nat.zero_mul]
    omega
  | cons t rest ih =>
    obtain ⟨gap, apart⟩ := List.pairwise_cons.mp apart
    have here := within t List.mem_cons_self
    cases rest with
    | nil =>
      rw [List.length_singleton, Nat.one_mul]
      omega
    | cons t' rest =>
      have before : ∀ s ∈ t' :: rest, start ≤ s ∧ s ≤ t - interval := by
        intro s mem
        have first := (within s (List.mem_cons_of_mem _ mem)).1
        have second := gap s mem
        omega
      have fits := ih apart before
      have second := gap t' List.mem_cons_self
      have first := (within t' (List.mem_cons_of_mem _ List.mem_cons_self)).1
      rw [List.length_cons, Nat.succ_mul]
      omega

namespace Drive

variable {σ : Type} {env : Environment σ} {deadline : Nat} {l : Ledger} {interval start : Nat}

open World (Paced Spaced)

/-- Before the composite of a tick a placement is free, and there is one in it at most. -/
theorem paced_of_ticks {ticker : Ticker} {w v : World (Recorded σ)} {p : Pass (Recorded σ)}
    (paced : Paced env l interval start w []) (tick : Ticks env.recorded deadline ticker w v p) :
    Paced env l interval start p.began p.composite.tasks ∧
      p.composite.tasks.countP Task.isPlacement ≤ 1 ∧
      p.began.exchange = w.exchange := by
  obtain ⟨-, rest, tasks⟩ := Investor.next_eq_ok tick.next
  have waits := tick.waits
  have spaced : Spaced env l interval start v := paced.toSpaced.waits waits
  have idle : Course.Orderly (⟨v, none, []⟩ : Course (Recorded σ)) := by
    obtain ⟨agenda, queue, updates, calling⟩ := paced.orderly
    rw [← waits.investor] at queue
    exact ⟨agenda, queue, fun busy => absurd ⟨rfl, rfl⟩ busy, calling⟩
  have next : v.investor.next (v.isRetired env.recorded) =
      (p.began.investor, .ok (some p.composite)) := by
    rw [tick.active]
    exact tick.next
  have began : Course.opening v p.began.investor p.composite.tasks =
      ⟨p.began, none, p.composite.tasks⟩ := by
    rw [Course.opening, ← tick.began]
  have orderly : (Course.opening v p.began.investor p.composite.tasks).Orderly := by
    have step : Course.Step env.recorded (fun _ _ => False) ⟨v, none, []⟩ none _ := .next next
    exact Course.orderly_step step idle
  rw [began] at orderly
  have queued : p.composite.tasks.countP Task.isPlacement =
      w.investor.pending.countP Task.isPlacement := by
    rw [tasks, List.countP_cons_of_neg (by simp [Task.isPlacement]), List.countP_append,
      waits.investor]
    rfl
  refine ⟨⟨?_, orderly, ?_⟩, ?_, ?_⟩
  · rw [tick.began, rest]
    exact ⟨spaced.line, spaced.pace, spaced.last, spaced.apart, spaced.within, spaced.since⟩
  · intro coming
    have free : World.IsFree interval w := by
      apply paced.free
      rw [List.countP_append, queued, rest] at coming
      exact coming
    have same : placements p.began.exchange.record = placements w.exchange.record := by
      rw [tick.began, ← waits.exchange]
    apply free.later same
    rw [tick.began]
    exact waits.passes
  · rw [queued]
    have order : w.investor.pending.countP Task.isOrder ≤ 1 :=
      paced.orderly.queue.countP_isOrder_le
    have fewer : w.investor.pending.countP Task.isPlacement ≤
        w.investor.pending.countP Task.isOrder := by
      apply List.countP_mono_left
      intro task mem placement
      cases task with
      | addOrder side amount price => rfl
      | _ => cases placement
    omega
  · rw [tick.began]
    exact waits.exchange

/-- There is no placement in the first composite. -/
theorem paced_of_begins {w : World σ} {p : Pass (Recorded σ)} (begins : Begins w.recorded p)
    (idle : w.investor.pending = []) (unplaced : w.investor.lastOrderAt = none) :
    Paced env w.investor.ledger w.investor.timing.orderUpdateIntervalMs w.now p.began
        p.composite.tasks ∧
      p.composite.tasks.countP Task.isPlacement = 0 ∧ placements p.began.exchange.record = [] := by
  have began := begins.began
  have exchange : p.began.exchange = w.recorded.exchange := by rw [began]
  have nothing : placements p.began.exchange.record = [] := by
    rw [exchange]
    rfl
  have none : p.composite.tasks.countP Task.isPlacement = 0 := by
    rw [begins.tasks]
    rfl
  have pending : p.began.investor.pending = [] := by
    rw [began]
    exact idle
  refine ⟨⟨⟨?_, ?_, ?_, ?_, ?_, ?_⟩, ⟨?_, ?_, ?_, ?_⟩, ?_⟩, none, nothing⟩
  · rw [began]
    rfl
  · rw [began]
    rfl
  · rw [nothing, began]
    exact unplaced
  · rw [nothing]
    exact .nil
  · rw [nothing]
    simp
  · rw [began]
    exact Nat.le_refl _
  · show IsAgenda p.composite.tasks
    rw [begins.tasks]
    exact isAgenda_startTasks
  · show IsQueue p.began.investor.pending
    rw [pending]
    exact .none
  · intro _ task mem
    simp [pending] at mem
  · simp
  · intro coming
    rw [List.countP_append, none, pending] at coming
    cases coming

theorem Paced.retire {w : World (Recorded σ)} {tasks : List Task}
    (paced : Paced env l interval start w tasks) :
    Paced env l interval start (w.retire env.recorded) tasks :=
  ⟨⟨paced.line, paced.pace, paced.last, paced.apart, paced.within, paced.since⟩,
    ⟨paced.orderly.agenda, paced.orderly.queue, paced.orderly.updates, paced.orderly.calling⟩,
    paced.free⟩

/-- A pass keeps the pace. -/
theorem paced_of_pass (deadline : Nat) {p : Pass (Recorded σ)} (empty : l.orders = [])
    (paced : Paced env l interval start p.began p.composite.tasks) :
    Spaced env l interval start (p.ended env.recorded deadline) ∧
      (∀ report, p.outcome env.recorded deadline = .ok (some report) →
        Paced env l interval start (p.left env.recorded deadline) [] ∧
          placements (p.left env.recorded deadline).exchange.record =
            placements (p.ended env.recorded deadline).exchange.record) ∧
      (placements (p.ended env.recorded deadline).exchange.record).length ≤
        (placements p.began.exchange.record).length +
          p.composite.tasks.countP Task.isPlacement := by
  obtain ⟨spaced, ends, few⟩ := paced.runTasks (r := .empty) (some deadline) empty
  refine ⟨spaced, ?_, few⟩
  intro report h
  have after : Paced env l interval start (p.ended env.recorded deadline) [] := ends report h
  unfold Pass.left
  split
  · exact ⟨Paced.retire after, rfl⟩
  · exact ⟨after, rfl⟩

/-- From a tick on, one order at most is accepted for every millisecond that is left. -/
theorem spaced_of_goes {ticker : Ticker} {w u : World (Recorded σ)} {r : RunReport}
    {ps : List (Pass (Recorded σ))} {result : Checked RunReport} {stop : Nat}
    (h : Goes env.recorded deadline ticker w r ps (u, result)) (empty : l.orders = [])
    (paced : Paced env l interval start w []) (period : 1 ≤ ticker.period)
    (now : w.now ≤ stop) (before : deadline ≤ stop) :
    Spaced env l interval start u ∧ u.now ≤ stop ∧
      (placements u.exchange.record).length ≤
        (placements w.exchange.record).length + (stop + 1 - ticker.due) := by
  generalize hr : (u, result) = outcome at h
  induction h with
  | @ends ticker w r v waits why =>
    obtain ⟨rfl, -⟩ := Prod.mk.inj hr
    have inTime := waits.inTime deadline rfl
    refine ⟨paced.toSpaced.waits waits, by omega, ?_⟩
    rw [waits.exchange]
    exact Nat.le_add_right _ _
  | @closes ticker w r v p outcome tick h =>
    subst hr
    obtain ⟨paced', one, same⟩ := paced_of_ticks paced tick
    obtain ⟨spaced, -, few⟩ := paced_of_pass deadline empty paced'
    obtain ⟨due, -, inTime⟩ := tick.now_left
    rw [Pass.now_left] at inTime
    rw [h.world]
    rw [same] at few
    exact ⟨spaced, by omega, by omega⟩
  | @goesOn ticker w r v p report r' ps outcome tick h add rest ih =>
    obtain ⟨paced', one, same⟩ := paced_of_ticks paced tick
    obtain ⟨-, ends, few⟩ := paced_of_pass deadline empty paced'
    obtain ⟨after, left⟩ := ends report h
    obtain ⟨due, later, inTime⟩ := tick.now_left
    obtain ⟨next, period'⟩ := due_take ticker v.now
    obtain ⟨spaced, now', more⟩ := ih after (by omega) (by omega) hr
    rw [left] at more
    rw [same] at few
    exact ⟨spaced, now', by omega⟩

/-- No order is accepted in the first composite. -/
theorem pass_of_begins {w : World σ} {p : Pass (Recorded σ)} (begins : Begins w.recorded p)
    (empty : w.investor.ledger.orders = []) (idle : w.investor.pending = [])
    (unplaced : w.investor.lastOrderAt = none) :
    Spaced env w.investor.ledger w.investor.timing.orderUpdateIntervalMs w.now
        (p.ended env.recorded deadline) ∧
      placements (p.ended env.recorded deadline).exchange.record = [] ∧
      w.now ≤ (p.ended env.recorded deadline).now ∧
      (p.ended env.recorded deadline).now ≤ max w.now deadline ∧
      ∀ report, p.outcome env.recorded deadline = .ok (some report) →
        Paced env w.investor.ledger w.investor.timing.orderUpdateIntervalMs w.now
          (p.left env.recorded deadline) [] ∧
        placements (p.left env.recorded deadline).exchange.record = [] := by
  obtain ⟨paced, none, nothing⟩ := paced_of_begins begins idle unplaced
  obtain ⟨spaced, ends, few⟩ := paced_of_pass deadline empty paced
  obtain ⟨later, inTime, -⟩ := @Pass.elapses_ended _ env.recorded deadline p
  have began : p.began.now = w.now := by
    rw [begins.began]
    rfl
  rw [began] at later inTime
  rw [nothing, none] at few
  have still : placements (p.ended env.recorded deadline).exchange.record = [] :=
    List.eq_nil_of_length_eq_zero (Nat.le_zero.mp few)
  refine ⟨spaced, still, later, inTime, ?_⟩
  intro report h
  obtain ⟨after, left⟩ := ends report h
  exact ⟨after, left.trans still⟩

/-- The accepted orders of a drive, from its first composite on. -/
theorem spaced_of_drives {tick : Nat} {w : World σ} {u : World (Recorded σ)}
    {ps : List (Pass (Recorded σ))} {result : Checked RunReport}
    (h : Drives env.recorded deadline tick w.recorded ps (u, result))
    (empty : w.investor.ledger.orders = []) (idle : w.investor.pending = [])
    (unplaced : w.investor.lastOrderAt = none) :
    Spaced env w.investor.ledger w.investor.timing.orderUpdateIntervalMs w.now u ∧
      u.now ≤ max w.now deadline ∧
      (placements u.exchange.record).length ≤ max w.now deadline + 1 - w.now := by
  cases h with
  | closes begins h =>
    obtain ⟨spaced, nothing, -, inTime, -⟩ := pass_of_begins begins empty idle unplaced
    rw [h.world, nothing]
    exact ⟨spaced, inTime, Nat.zero_le _⟩
  | stuck begins h add zero =>
    obtain ⟨-, -, -, inTime, ends⟩ := pass_of_begins begins empty idle unplaced
    obtain ⟨after, nothing⟩ := ends _ h
    rw [nothing, Pass.now_left]
    exact ⟨after.toSpaced, inTime, Nat.zero_le _⟩
  | goesOn begins h add period rest =>
    obtain ⟨-, -, later, inTime, ends⟩ := pass_of_begins begins empty idle unplaced
    obtain ⟨after, nothing⟩ := ends _ h
    rw [← Pass.now_left] at later inTime
    obtain ⟨spaced, now, more⟩ := spaced_of_goes rest empty after period inTime (by omega)
    rw [nothing, List.length_nil] at more
    refine ⟨spaced, now, ?_⟩
    simp only at more
    omega

end Drive

/-- The number for which a run is laid out, if its milliseconds can be counted. -/
theorem Timing.maxOrders_eq_ok_iff {t : Timing} {most : Nat} :
    t.maxOrders = .ok most ↔ InWord64 (t.benchmarkTimeSecs * 1000) ∧
      t.benchmarkTimeSecs * 1000 / max t.orderUpdateIntervalMs 1 + 1 = most := by
  constructor
  · intro h
    obtain ⟨milliseconds, counted, h⟩ := Checked.bind_eq_ok_iff.mp h
    obtain ⟨fits, rfl⟩ := Checked.mulNat_eq_ok_iff.mp counted
    obtain ⟨-, rfl⟩ := Checked.addNat_eq_ok_iff.mp h
    exact ⟨fits, rfl⟩
  · rintro ⟨fits, rfl⟩
    have counted := Checked.mulNat_eq_ok_iff.mpr ⟨fits, rfl⟩
    have less := Nat.div_le_self (t.benchmarkTimeSecs * 1000) (max t.orderUpdateIntervalMs 1)
    -- the highest number of 64 bits is no multiple of a thousand
    have one : InWord64 (t.benchmarkTimeSecs * 1000 / max t.orderUpdateIntervalMs 1 + 1) := by
      unfold InWord64 at fits ⊢
      omega
    exact Checked.bind_eq_ok_iff.mpr ⟨_, counted, Checked.addNat_eq_ok_iff.mpr ⟨one, rfl⟩⟩

theorem Investor.laidOut_of_new {account : String} {profile : InvestorProfile} {rewards : Rewards}
    {timing : Timing} {source : Random.Stream} {inv : Investor}
    (made : Investor.new account profile rewards timing source = .ok inv) :
    (∃ most, timing.maxOrders = .ok most) ∧ inv.lastOrderAt = none := by
  obtain ⟨⟨most, counted, -⟩, rfl⟩ := new_eq_ok_iff.mp made
  exact ⟨⟨most, counted⟩, rfl⟩

/-- Orders an interval apart, and one for a millisecond at most, are no more than the span holds. -/
theorem le_of_apart_of_single {count interval span : Nat}
    (apart : count * interval ≤ span + interval) (single : count ≤ span + 1) :
    count ≤ span / max interval 1 + 1 := by
  by_cases zero : interval = 0
  · rw [zero, Nat.max_eq_right (Nat.zero_le 1), Nat.div_one]
    exact single
  · have positive : 0 < interval := Nat.pos_of_ne_zero zero
    rw [Nat.max_eq_left positive]
    have less : (count - 1) * interval ≤ span := by
      rw [Nat.sub_mul, Nat.one_mul]
      omega
    have fits := (Nat.le_div_iff_mul_le positive).mpr less
    omega

namespace Drive

variable {σ : Type} {env : Environment σ} {deadline : Nat}

/-- In a drive of a new investor that lasts no longer than a benchmark, accepted orders are an
interval apart, and at no moment does the ledger track more of them than a run is laid out for. The
record gives the ledger and the time of the last order as the investor has them. -/
theorem placements_apart_and_bounded {account : String} {profile : InvestorProfile}
    {rewards : Rewards} {timing : Timing} {source : Random.Stream} {w : World σ} (tick : Nat)
    (made : Investor.new account profile rewards timing source = .ok w.investor)
    (inTime : deadline ≤ w.now + timing.benchmarkTimeSecs * 1000) :
    let dealings := record env deadline tick w
    ((dealings.filterMap Dealing.placedAt?).Pairwise fun later earlier =>
      earlier + timing.orderUpdateIntervalMs ≤ later) ∧
    (run env tick deadline w).1.investor.ledger =
      w.investor.ledger.after (operations env dealings) ∧
    (run env tick deadline w).1.investor.lastOrderAt =
      (dealings.filterMap Dealing.placedAt?).head? ∧
    ∃ most, timing.maxOrders = .ok most ∧
      ∀ earlier, earlier <:+ dealings →
        (w.investor.ledger.after (operations env earlier)).orders.length ≤ most := by
  intro dealings
  obtain ⟨ledger, idle, -⟩ := Investor.new_eq_ok made
  obtain ⟨⟨most, laidOut⟩, unplaced⟩ := Investor.laidOut_of_new made
  have fresh : w.recorded.investor.started = false := Investor.started_of_new made
  have empty : w.investor.ledger.orders = [] := by rw [ledger]; rfl
  have timing' := Investor.timing_of_new made
  have drives : Drives env.recorded deadline tick w.recorded _
      ((run env.recorded tick deadline w.recorded).1,
        (run env.recorded tick deadline w.recorded).2) := drives_run tick fresh
  obtain ⟨spaced, now, single⟩ := spaced_of_drives drives empty idle unplaced
  rw [timing'] at spaced
  have plain := run_plain env deadline tick w.recorded
  rw [World.plain_recorded] at plain
  refine ⟨spaced.apart, ?_, ?_, most, laidOut, ?_⟩
  · rw [plain]
    exact spaced.line
  · rw [plain]
    exact spaced.last
  · intro earlier before
    have fewer : (placements earlier).length ≤ (placements dealings).length :=
      (before.sublist.filterMap _).length_le
    have few : (placements dealings).length ≤ max w.now deadline + 1 - w.now := single
    have apart : w.now + (placements dealings).length * timing.orderUpdateIntervalMs ≤
        max w.now (run env.recorded tick deadline w.recorded).1.now +
          timing.orderUpdateIntervalMs := length_mul_le_of_apart spaced.apart spaced.within
    have fits : (placements dealings).length ≤
        timing.benchmarkTimeSecs * 1000 / max timing.orderUpdateIntervalMs 1 + 1 := by
      apply le_of_apart_of_single
      · omega
      · omega
    rw [length_orders_after, empty, List.length_nil, Nat.zero_add]
    rw [(Timing.maxOrders_eq_ok_iff.mp laidOut).2] at fits
    exact fewer.trans fits

/-- Orders a tenth of a second apart, in a benchmark of a second. -/
def tenths : Timing :=
  { Timing.standard with
    pollingIntervalMs := 60000, orderUpdateIntervalMs := 100, benchmarkTimeSecs := 1,
    signupJitterMs := 0 }

/-- An exchange that trades an order whenever the orders are fetched. -/
def tradesAtOnce : ScriptedExchange := ScriptedExchange.initial.change (.fill 1 none)

/-- An order of the first tick and one of the third, where eleven would be allowed. -/
theorem placements_apart_by_two_ticks :
    ∃ inv, Investor.new "investor" ⟨500, 0, 5, 100, 1⟩ .standard tenths (.ofSeed 0) = .ok inv ∧
      let dealings := record Course.scripted 250 100 (.new inv tradesAtOnce)
      dealings.filterMap Dealing.placedAt? = [200, 0] ∧ 0 + tenths.orderUpdateIntervalMs ≤ 200 ∧
      (inv.ledger.after (operations Course.scripted dealings)).orders.length ≤ 11 := by
  have rehearsal : (Investor.new "investor" ⟨500, 0, 5, 100, 1⟩ .standard tenths
      (.ofSeed 0)).toOption.any fun inv =>
        decide ((record Course.scripted 250 100 (.new inv tradesAtOnce)).filterMap
          Dealing.placedAt? = [200, 0]) := by decide
  obtain ⟨inv, made, rehearsal⟩ := exists_ok_of_any rehearsal
  have placed := of_decide_eq_true rehearsal
  have inTime : 250 ≤ (World.new inv tradesAtOnce).now + tenths.benchmarkTimeSecs * 1000 := by
    show 250 ≤ 0 + 1 * 1000
    omega
  obtain ⟨apart, -, -, most, laidOut, bounded⟩ :=
    @placements_apart_and_bounded _ Course.scripted 250 _ _ _ _ _ (.new inv tradesAtOnce) 100 made
      inTime
  have eleven : 11 = most := (Timing.maxOrders_eq_ok_iff.mp laidOut).2
  rw [placed] at apart
  have gap := (List.pairwise_cons.mp apart).1 0 List.mem_cons_self
  exact ⟨inv, made, placed, gap, eleven.symm ▸ bounded _ List.suffix_rfl⟩

end Drive

end TradingLoad
