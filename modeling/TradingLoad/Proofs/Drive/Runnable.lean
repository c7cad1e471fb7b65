import TradingLoad.Cli.Run
import TradingLoad.Proofs.Drive.FailStop
import TradingLoad.Proofs.Drive.Pacing

namespace TradingLoad

/-- Every call fails, if its reply ever comes. -/
def Exchange.Refuses {σ : Type} (x : Exchange σ) : Prop :=
  ∀ (c : Call) (s : σ), ∃ failure, (x.reply c s).1 = .error failure

variable {σ : Type} {env : Environment σ}

namespace World

variable {deadline : Deadline} {w v u : World σ} {task : Task}

/-- The task makes a call, and nothing changes if the call fails. -/
def Leads (env : Environment σ) (w : World σ) (task : Task) : Prop :=
  task = .top ∨ task = .info ∧ w.isRetired env = false ∧ w.investor.polling.nextPollAt = none

theorem Leads.waits (leads : w.Leads env task) (waits : Waits deadline w v) : v.Leads env task := by
  unfold Leads isRetired at leads ⊢
  rw [waits.investor, waits.exchange]
  exact leads

/-- The task begins with a call, and a failure is all that comes of a reply that is one. -/
theorem Leads.begin (leads : w.Leads env task) :
    ∃ c, w.investor.begin (w.isRetired env) w.now task = .ok (w.investor, .ask c) ∧
      ∀ (inv : Investor) now at_ failure, inv.receive now at_ c (.error failure) =
        (inv, .ok (.error failure)) := by
  rcases leads with rfl | ⟨rfl, active, fresh⟩
  · exact ⟨.top, rfl, fun _ _ _ _ => rfl⟩
  · refine ⟨.info w.investor.polling.cursor, ?_, fun _ _ _ _ => rfl⟩
    have due : w.investor.polling.isDue w.now = true := by simp [Polling.isDue, fresh]
    simp [Investor.begin, active, due]

/-- The first task of a composite comes to nothing if the exchange refuses its call. -/
theorem ComesTo.of_refuses {ending : Checked Composite.Ending}
    (h : ComesTo env deadline w task u ending) (refuses : env.exchange.Refuses)
    (leads : w.Leads env task) : u.investor = w.investor ∧
      (ending = .ok .cut ∨ ∃ failure, ending = .ok (.ended (.error failure))) := by
  cases h with
  | late waits => exact ⟨waits.investor, .inl rfl⟩
  | faults waits h =>
    obtain ⟨c, asks, -⟩ := (leads.waits waits).begin
    rw [asks] at h
    cases h
  | skips waits h =>
    obtain ⟨c, asks, -⟩ := (leads.waits waits).begin
    rw [asks] at h
    cases h
  | hangs waits h asks => exact ⟨asks.investor.trans waits.investor, .inl rfl⟩
  | @answered v u c latency waits h takes comes now =>
    obtain ⟨c', asks, idle⟩ := (leads.waits waits).begin
    rw [asks] at h
    obtain rfl : c' = c := by
      have same := Except.ok.inj h
      cases same
      rfl
    obtain ⟨failure, refused⟩ := refuses c' u.exchange
    have settled : (u.settle env c').1.investor = u.investor ∧
        (u.settle env c').2 = .ok (.error failure) := by
      rw [Course.settle_eq]
      simp only
      rw [refused, idle]
      exact ⟨rfl, rfl⟩
    refine ⟨settled.1.trans (comes.investor.trans waits.investor), .inr ⟨failure, ?_⟩⟩
    rw [settled.2]
    rfl

end World

/-- The composite is cut, or it ends without a score. -/
def Pass.IsIdle (env : Environment σ) (deadline : Nat) (p : Pass σ) : Prop :=
  p.outcome env deadline = .ok none ∨
    ∃ report, p.outcome env deadline = .ok (some report) ∧ report.score = 0

namespace Drive

variable {deadline tick : Nat} {ticker : Ticker} {w u : World σ} {r : RunReport} {p : Pass σ}
  {ps : List (Pass σ)} {result : Checked RunReport}

/-- A composite on an exchange that refuses every call ends with its first task, for nothing. -/
theorem isIdle_of_refuses {task : Task} {rest : List Task} (refuses : env.exchange.Refuses)
    (tasks : p.composite.tasks = task :: rest) (leads : p.began.Leads env task) :
    p.IsIdle env deadline ∧ (p.left env deadline).investor = p.began.investor := by
  have ran : p.began.runComposite env (some deadline) p.composite =
      Composite.runTasks Task.name (World.runTask env (some deadline)) .empty (task :: rest)
        p.began := by
    rw [← tasks]
    rfl
  have ended : p.IsIdle env deadline ∧ (p.ended env deadline).investor = p.began.investor := by
    unfold Pass.IsIdle Pass.ended Pass.outcome
    rw [ran]
    have comes := World.comesTo_runTask env (some deadline) p.began task
    unfold Composite.runTasks
    cases h : p.began.runTask env (some deadline) task with
    | mk v ending =>
      rw [h] at comes
      obtain ⟨same, cut | ⟨failure, fails⟩⟩ := comes.of_refuses refuses leads
      · obtain rfl : ending = .ok .cut := cut
        exact ⟨.inl rfl, same⟩
      · obtain rfl : ending = .ok (.ended (.error failure)) := fails
        exact ⟨.inr ⟨_, rfl, rfl⟩, same⟩
  refine ⟨ended.1, ?_⟩
  rw [← ended.2]
  unfold Pass.left
  split <;> rfl

theorem closes_of_isIdle (idle : p.IsIdle env deadline) (zero : r.score = 0)
    (h : Closes env deadline r p (u, result)) :
    ∃ r', result = .ok r' ∧ r'.score = 0 ∧ p.outcome env deadline = .ok none := by
  cases h with
  | faults h =>
    rcases idle with cut | ⟨report, ends, -⟩
    · rw [cut] at h
      cases h
    · rw [ends] at h
      cases h
  | cut h => exact ⟨_, rfl, zero, h⟩
  | overflows h add =>
    rcases idle with cut | ⟨report, ends, none⟩
    · rw [cut] at h
      cases h
    · rw [ends] at h
      cases h
      have large := RunReport.add_eq_error add
      rw [zero, none] at large
      exact absurd (by decide) large

theorem score_of_isIdle {report : Composite.Report} {r' : RunReport}
    (idle : p.IsIdle env deadline) (zero : r.score = 0)
    (h : p.outcome env deadline = .ok (some report)) (add : r.add report = .ok r') :
    r'.score = 0 := by
  rcases idle with cut | ⟨report', ends, none⟩
  · rw [cut] at h
    cases h
  · rw [ends] at h
    cases h
    rw [RunReport.score_add add, zero, none]

theorem goes_of_refuses (h : Goes env deadline ticker w r ps (u, result))
    (refuses : env.exchange.Refuses) (fresh : w.investor.polling.nextPollAt = none)
    (zero : r.score = 0) : ∃ r', result = .ok r' ∧ r'.score = 0 := by
  generalize hr : (u, result) = outcome at h
  -- no poll succeeds, so each tick finds the next one due, and it is refused again
  have poll {ticker : Ticker} {w v : World σ} {p : Pass σ}
      (tick : Ticks env deadline ticker w v p) (fresh : w.investor.polling.nextPollAt = none) :
      p.IsIdle env deadline ∧ (p.left env deadline).investor.polling.nextPollAt = none := by
    obtain ⟨-, drained, tasks⟩ := Investor.next_eq_ok tick.next
    have still : p.began.investor.polling.nextPollAt = none := by
      rw [drained, tick.waits.investor]
      exact fresh
    have active : p.began.isRetired env = false := by
      rw [tick.began]
      exact tick.active
    have refused : p.IsIdle env deadline ∧ (p.left env deadline).investor = p.began.investor :=
      isIdle_of_refuses refuses tasks (.inr ⟨rfl, active, still⟩)
    exact ⟨refused.1, by rw [refused.2]; exact still⟩
  induction h with
  | ends waits why =>
    obtain ⟨-, rfl⟩ := Prod.mk.inj hr
    exact ⟨_, rfl, zero⟩
  | closes tick h =>
    subst hr
    obtain ⟨r', ends, none, -⟩ := closes_of_isIdle (poll tick fresh).1 zero h
    exact ⟨r', ends, none⟩
  | goesOn tick h add rest ih =>
    obtain ⟨idle, still⟩ := poll tick fresh
    exact ih still (score_of_isIdle idle zero h add) hr

/-- A drive on an exchange that refuses every call returns without a score; one without time between
two ticks is at fault, unless the time is up before its first tick. -/
theorem drives_of_refuses (h : Drives env deadline tick w ps (u, result))
    (refuses : env.exchange.Refuses) (fresh : w.investor.polling.nextPollAt = none) :
    (∃ r, result = .ok r ∧ r.score = 0) ∨ tick = 0 ∧ result = .error .zeroPeriod := by
  have visit {p : Pass σ} (begins : Begins w p) :
      p.IsIdle env deadline ∧ (p.left env deadline).investor = p.began.investor :=
    isIdle_of_refuses refuses begins.tasks (.inl rfl)
  cases h with
  | closes begins h =>
    obtain ⟨r', ends, none, -⟩ := closes_of_isIdle (visit begins).1 rfl h
    exact .inl ⟨r', ends, none⟩
  | stuck begins h add zero => exact .inr ⟨zero, rfl⟩
  | goesOn begins h add period rest =>
    obtain ⟨idle, same⟩ := visit begins
    refine .inl (goes_of_refuses rest refuses ?_ (score_of_isIdle idle rfl h add))
    rw [same, begins.began]
    exact fresh

/-- An exchange that is there and refuses every call at once. -/
def closedExchange : Environment Bool where
  exchange :=
    { note := fun _ _ s => s
      latency := fun _ _ => some 0
      reply := fun _ s => (.error (.status 503 "closed"), s)
      isRetired := id
      retire := fun _ => true }
  wallClock _ := .epoch
  delays _ := 0

theorem refuses_closedExchange : closedExchange.exchange.Refuses := fun _ _ => ⟨_, rfl⟩

/-- The first composite has ended when the ticks should begin. -/
theorem run_of_no_period (inv : Investor) (fresh : inv.started = false) (deadline : Nat) :
    (run closedExchange 0 deadline (.new inv false)).2 = .error .zeroPeriod := by
  have starts := Investor.start_of_fresh fresh
  unfold run
  simp only [World.new, starts]
  rfl

end Drive

namespace Timing

variable {t : Timing}

/-- The orders of a run can be counted, and a list has room for them. -/
def HasRoom (t : Timing) : Prop :=
  InWord64 (t.benchmarkTimeSecs * 1000) ∧
    InMemory ((t.benchmarkTimeSecs * 1000 / max t.orderUpdateIntervalMs 1 + 1) * Order.bytes)

instance (t : Timing) : Decidable t.HasRoom := by unfold HasRoom; infer_instance

/-- What is at fault where there is no room: the number of the orders, or else their size. -/
def roomFault (t : Timing) : Fault :=
  if InWord64 (t.benchmarkTimeSecs * 1000) then .capacityOverflow else .mulOverflow

theorem maxOrders_of_not_fits (large : ¬ InWord64 (t.benchmarkTimeSecs * 1000)) :
    t.maxOrders = .error .mulOverflow := by
  have overflows : Checked.mulNat t.benchmarkTimeSecs 1000 = .error .mulOverflow := if_neg large
  unfold maxOrders
  rw [overflows]
  rfl

/-- The clock can tell the moment at which the run ends. -/
theorem exists_deadline_iff (clock : Nat) :
    (∃ deadline, Cli.deadlineOf clock t = .ok deadline) ↔
      clock + t.benchmarkTimeSecs < 0x8000000000000000 := by
  unfold Cli.deadlineOf
  split
  · next short => exact ⟨fun _ => short, fun _ => ⟨_, rfl⟩⟩
  · next long =>
    refine ⟨?_, fun short => absurd short long⟩
    rintro ⟨deadline, told⟩
    cases told

end Timing

namespace Investor

variable {timing : Timing} (account : String) (profile : InvestorProfile) (rewards : Rewards)
  (source : Random.Stream)

/-- The investor has done nothing yet. -/
def IsNew (inv : Investor) : Prop := inv.started = false ∧ inv.polling = .initial

theorem exists_new_of_hasRoom (room : timing.HasRoom) :
    ∃ inv, new account profile rewards timing source = .ok inv ∧ inv.IsNew := by
  obtain ⟨counted, laidOut⟩ := room
  exact ⟨_, new_eq_ok_iff.mpr ⟨⟨_, Timing.maxOrders_eq_ok_iff.mpr ⟨counted, rfl⟩, laidOut⟩, rfl⟩,
    rfl, rfl⟩

theorem new_of_not_hasRoom (none : ¬ timing.HasRoom) :
    new account profile rewards timing source = .error timing.roomFault := by
  unfold new Timing.roomFault
  by_cases counted : InWord64 (timing.benchmarkTimeSecs * 1000)
  · have large : ¬ InMemory ((timing.benchmarkTimeSecs * 1000 /
        max timing.orderUpdateIntervalMs 1 + 1) * Order.bytes) := fun laidOut =>
      none ⟨counted, laidOut⟩
    rw [Timing.maxOrders_eq_ok_iff.mpr ⟨counted, rfl⟩, if_pos counted]
    simp only [bind, Except.bind, Ledger.newFor, Checked.layOut, if_neg large]
  · rw [Timing.maxOrders_of_not_fits counted, if_neg counted]
    rfl

end Investor

namespace Roster

variable {c : BenchConfig} (seed : Option UInt64)

/-- An investor at a place. It is proved of any way to draw an account: the kernel computes the
random words of this one when it compares the two sides, and that takes it long. -/
theorem recruit_eq (place : Nat) (p : InvestorProfile) (s : Random.Stream) :
    recruit c seed place p s =
      let drawn := Credentials.generate c.settings.bankIdPrefix place s
      match Http.Session.new c.target drawn.1 with
      | .error failure => .ok (.error failure)
      | .ok session =>
        let given := sourceAt seed place drawn.2
        (Investor.new drawn.1.account p c.rewards c.timing given.1).map fun investor =>
          .ok (⟨investor, session⟩, given.2) := by
  obtain ⟨draw, isDraw⟩ : ∃ f, f = Credentials.generate := ⟨_, rfl⟩
  obtain ⟨one, isOne⟩ : ∃ f, f = @recruit := ⟨_, rfl⟩
  rw [← isDraw, ← isOne]
  delta recruit at isOne
  rw [← isDraw] at isOne
  subst isOne
  rfl

/-- An investor and those behind it; proved of any way to recruit, for the same reason. -/
theorem recruitAll_cons (place : Nat) (p : InvestorProfile) (ps : List InvestorProfile)
    (s : Random.Stream) : recruitAll c seed place (p :: ps) s =
      match recruit c seed place p s with
      | .error fault => .error fault
      | .ok (.error failure) => .ok (.error failure)
      | .ok (.ok (r, s)) =>
        (recruitAll c seed (place + 1) ps s).map fun rest => rest.map (r :: ·) := by
  obtain ⟨one, isOne⟩ : ∃ f, f = @recruit := ⟨_, rfl⟩
  obtain ⟨all, isAll⟩ : ∃ f, f = @recruitAll := ⟨_, rfl⟩
  rw [← isOne, ← isAll]
  delta recruitAll recruitAll._f at isAll
  rw [← isOne] at isAll
  subst isAll
  rfl

theorem exists_session (url : ∃ u, Url.parse c.target.baseUrl = .ok u) (credentials : Credentials) :
    ∃ session, Http.Session.new c.target credentials = .ok session := by
  obtain ⟨u, parses⟩ := url
  unfold Http.Session.new
  rw [parses]
  exact ⟨_, rfl⟩

theorem recruit_of_hasRoom (url : ∃ u, Url.parse c.target.baseUrl = .ok u)
    (room : c.timing.HasRoom) (place : Nat) (p : InvestorProfile) (s : Random.Stream) :
    ∃ r s', recruit c seed place p s = .ok (.ok (r, s')) ∧ r.investor.IsNew := by
  rw [recruit_eq]
  obtain ⟨credentials, s⟩ := Credentials.generate c.settings.bankIdPrefix place s
  obtain ⟨session, opens⟩ := exists_session url credentials
  obtain ⟨inv, made, new⟩ :=
    Investor.exists_new_of_hasRoom credentials.account p c.rewards (sourceAt seed place s).1 room
  simp only [opens, made]
  exact ⟨⟨inv, session⟩, (sourceAt seed place s).2, rfl, new⟩

theorem recruit_of_not_hasRoom (url : ∃ u, Url.parse c.target.baseUrl = .ok u)
    (none : ¬ c.timing.HasRoom) (place : Nat) (p : InvestorProfile) (s : Random.Stream) :
    recruit c seed place p s = .error c.timing.roomFault := by
  rw [recruit_eq]
  obtain ⟨credentials, s⟩ := Credentials.generate c.settings.bankIdPrefix place s
  obtain ⟨session, opens⟩ := exists_session url credentials
  simp only [opens, Investor.new_of_not_hasRoom _ _ _ _ none]
  rfl

theorem recruitAll_of_hasRoom (url : ∃ u, Url.parse c.target.baseUrl = .ok u)
    (room : c.timing.HasRoom) (ps : List InvestorProfile) :
    ∀ (place : Nat) (s : Random.Stream), ∃ roster,
      recruitAll c seed place ps s = .ok (.ok roster) ∧ roster.length = ps.length ∧
        ∀ r ∈ roster, r.investor.IsNew := by
  induction ps with
  | nil =>
    intro place s
    exact ⟨[], rfl, rfl, by simp⟩
  | cons p ps ih =>
    intro place s
    obtain ⟨r, s', recruited, new⟩ := recruit_of_hasRoom seed url room place p s
    obtain ⟨rest, more, length, news⟩ := ih (place + 1) s'
    refine ⟨r :: rest, ?_, congrArg (· + 1) length, List.forall_mem_cons.mpr ⟨new, news⟩⟩
    rw [recruitAll_cons, recruited]
    simp only [more]
    rfl

theorem recruitAll_of_not_hasRoom (url : ∃ u, Url.parse c.target.baseUrl = .ok u)
    (none : ¬ c.timing.HasRoom) {ps : List InvestorProfile} (some : ps ≠ []) (place : Nat)
    (s : Random.Stream) : recruitAll c seed place ps s = .error c.timing.roomFault := by
  cases ps with
  | nil => exact absurd rfl some
  | cons p ps =>
    rw [recruitAll_cons, recruit_of_not_hasRoom seed url none]

end Roster

namespace BenchConfig

variable {c : BenchConfig} {clock : Nat}

/-- A run that starts at a reading of the clock gets under way: all investors can be had and the
clock can tell its end. On an exchange that refuses every call, each of their drives comes to its
end, for nothing. -/
def CanBeRun (clock : Nat) (c : BenchConfig) : Prop :=
  ∀ (seed : Option UInt64) (s : Random.Stream),
    ∃ roster deadline, Roster.build c seed s = .ok (.ok roster) ∧
      Cli.deadlineOf clock c.timing = .ok deadline ∧
      ∀ r ∈ roster, ∀ {σ : Type} (env : Environment σ) (x : σ), env.exchange.Refuses →
        ∃ report, (Drive.run env c.timing.tickIntervalMs deadline (.new r.investor x)).2 =
          .ok report ∧ report.score = 0

theorem url_of_check (h : c.check = .ok ()) : ∃ u, Url.parse c.target.baseUrl = .ok u := by
  unfold check at h
  cases parses : Url.parse c.target.baseUrl with
  | error cause =>
    rw [parses] at h
    cases h
  | ok u => exact ⟨u, rfl⟩

theorem drive_of_isNew {inv : Investor} {tick deadline : Nat} (new : inv.IsNew) (time : 1 ≤ tick)
    {σ : Type} {env : Environment σ} (x : σ) (refuses : env.exchange.Refuses) :
    ∃ report, (Drive.run env tick deadline (.new inv x)).2 = .ok report ∧ report.score = 0 := by
  have drives : Drive.Drives env deadline tick (.new inv x)
      (Drive.passes env deadline tick (.new inv x)) (Drive.run env tick deadline (.new inv x)) :=
    Drive.drives_run tick new.1
  have still := congrArg Polling.nextPollAt new.2
  rcases Drive.drives_of_refuses drives refuses still with ends | stuck
  · exact ends
  · omega

/-- The roster of settings whose target is a URL, and which leave room for the orders. -/
theorem build_of_check (accepted : c.check = .ok ())
    (room : Roster.places c ≠ [] → c.timing.HasRoom) (seed : Option UInt64)
    (s : Random.Stream) :
    ∃ roster, Roster.build c seed s = .ok (.ok roster) ∧
      roster.length = (Roster.places c).length ∧ ∀ r ∈ roster, r.investor.IsNew := by
  unfold Roster.build
  by_cases empty : Roster.places c = []
  · rw [empty]
    exact ⟨[], rfl, rfl, by simp⟩
  · exact Roster.recruitAll_of_hasRoom seed (url_of_check accepted) (room empty) _ 0 s

theorem hasRoom_of_canBeRun (accepted : c.check = .ok ()) (runs : c.CanBeRun clock)
    (places : Roster.places c ≠ []) : c.timing.HasRoom := by
  obtain ⟨roster, -, built, -⟩ := runs none (.ofSeed 0)
  by_contra full
  unfold Roster.build at built
  rw [Roster.recruitAll_of_not_hasRoom none (url_of_check accepted) full places] at built
  cases built

/-- Without time between two ticks the first investor gets stuck on a closed exchange. -/
theorem period_of_canBeRun (accepted : c.check = .ok ()) (runs : c.CanBeRun clock)
    (places : Roster.places c ≠ []) : 1 ≤ c.timing.tickIntervalMs := by
  obtain ⟨roster, deadline, built, -, drives⟩ := runs none (.ofSeed 0)
  obtain ⟨roster', again, length, news⟩ :=
    build_of_check accepted (hasRoom_of_canBeRun accepted runs) none (.ofSeed 0)
  obtain rfl : roster = roster' := by
    rw [built] at again
    injection again with again
    injection again
  obtain ⟨r, listed⟩ : ∃ r, r ∈ roster := by
    refine List.exists_mem_of_length_pos ?_
    rw [length]
    exact List.length_pos_iff.mpr places
  obtain ⟨report, ends, -⟩ :=
    drives r listed Drive.closedExchange false Drive.refuses_closedExchange
  by_contra late
  obtain none : c.timing.tickIntervalMs = 0 := by omega
  rw [none, Drive.run_of_no_period r.investor (news r listed).1 deadline] at ends
  cases ends

/-- A run with settings that pass the check, with any time that the arguments give and from any
reading of the clock on, gets under way exactly if the clock can tell its end and, where there are
investors at all, the milliseconds of the run are a number of 64 bits, a list has room for the
orders of one investor, and there is time between two ticks. -/
theorem can_be_run_iff (a : Cli.Arguments) (clock : Nat) (accepted : c.check = .ok ())
    (kept : a.target = none) :
    (Cli.override a c).CanBeRun clock ↔
      clock + (Cli.override a c).timing.benchmarkTimeSecs < 0x8000000000000000 ∧
      (Roster.places c ≠ [] →
        (Cli.override a c).timing.HasRoom ∧ 1 ≤ c.timing.tickIntervalMs) := by
  have same : (Cli.override a c).check = .ok () := by
    unfold Cli.override
    rw [kept]
    exact accepted
  -- only the length of the run is another one
  change _ ↔ _ ∧ (Roster.places (Cli.override a c) ≠ [] →
    _ ∧ 1 ≤ (Cli.override a c).timing.tickIntervalMs)
  generalize Cli.override a c = c at same
  constructor
  · intro runs
    obtain ⟨-, deadline, -, told, -⟩ := runs none (.ofSeed 0)
    refine ⟨(Timing.exists_deadline_iff clock).mp ⟨deadline, told⟩, fun places => ?_⟩
    exact ⟨hasRoom_of_canBeRun same runs places, period_of_canBeRun same runs places⟩
  · rintro ⟨short, room⟩ seed s
    obtain ⟨deadline, told⟩ := (Timing.exists_deadline_iff clock).mpr short
    obtain ⟨roster, built, length, news⟩ := build_of_check same (fun h => (room h).1) seed s
    refine ⟨roster, deadline, built, told, fun r listed _ env x refuses => ?_⟩
    have places : Roster.places c ≠ [] := by
      rw [← List.length_pos_iff, ← length]
      exact List.length_pos_of_mem listed
    exact drive_of_isNew (news r listed) (room places).2 x refuses

/-- An hour is a time for the standard settings, on a machine that has been up for a day. -/
theorem can_be_run_for_an_hour :
    (Cli.override { Cli.Arguments.none with durationSecs := some 3600 } standard).CanBeRun 86400 :=
  (can_be_run_iff { Cli.Arguments.none with durationSecs := some 3600 } 86400 (by decide) rfl).mpr
    ⟨by decide, fun _ => by decide⟩

/-- The standard settings with another timing. -/
def paced (t : Timing) : BenchConfig := { standard with timing := t }

/-- The check accepts ticks without time between them, a run of which the milliseconds cannot be
counted, though there is hardly time for two orders in it, and one with an order a millisecond for
which no list has room. -/
theorem check_of_unrunnable :
    let breathless := paced { Timing.standard with tickIntervalMs := 0 }
    let endless := paced
      { Timing.standard with
        benchmarkTimeSecs := 20000000000000000, orderUpdateIntervalMs := 18446744073709551615 }
    let crowded := paced
      { Timing.standard with benchmarkTimeSecs := 10000000000000000, orderUpdateIntervalMs := 0 }
    (breathless.check = .ok () ∧ ¬ breathless.CanBeRun 0) ∧
      (endless.check = .ok () ∧ ¬ endless.CanBeRun 0) ∧
      crowded.check = .ok () ∧ ¬ crowded.CanBeRun 0 := by
  intro breathless endless crowded
  refine ⟨⟨by decide, fun runs => ?_⟩, ⟨by decide, fun runs => ?_⟩, by decide, fun runs => ?_⟩
  · have period := period_of_canBeRun (by decide) runs (by decide)
    exact absurd period (by decide)
  · have room := hasRoom_of_canBeRun (by decide) runs (by decide)
    exact absurd room (by decide)
  · have room := hasRoom_of_canBeRun (by decide) runs (by decide)
    exact absurd room (by decide)

end BenchConfig

end TradingLoad
