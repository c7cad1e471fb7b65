import TradingLoad.Proofs.Concurrent.Exclusion
import TradingLoad.Proofs.Run.Course

namespace TradingLoad

/-- What the trading region guards, with what never changes. -/
structure Books where
  rewards : Rewards
  timing : Timing
  ledger : Ledger
  lastOrderAt : Option Nat
  trader : RandomTrader

namespace Investor

def books (inv : Investor) : Books :=
  ⟨inv.rewards, inv.timing, inv.ledger, inv.lastOrderAt, inv.trader⟩

/-- A decision changes the trader, and nothing else that the region guards. -/
theorem map_books_decide (inv : Investor) (retired : Bool) (now : Nat) :
    (inv.decide retired now).map books =
      if retired || !inv.isPlacementDue now then .ok inv.books
      else do
        let (_, trader) ← inv.trader.decide (← inv.situation)
        return { inv.books with trader } := by
  unfold decide
  split
  · rfl
  · cases inv.situation with
    | error fault => rfl
    | ok s =>
      cases hd : inv.trader.decide s with
      | error fault => simp [hd, bind, Except.bind, Except.map]
      | ok r =>
        obtain ⟨d, trader⟩ := r
        cases ht : taskOf d <;>
          simp [hd, ht, bind, Except.bind, Except.map, pure, Except.pure, books, push]

variable {inv inv' : Investor}

/-- Two investors are the same to a task with the trading region. -/
structure Alike (inv inv' : Investor) : Prop where
  books : inv.books = inv'.books
  signedIn : inv.signedIn = inv'.signedIn
  market : inv.market = inv'.market

theorem map_begin_eq (h : inv.Alike inv') {task : Task}
    (guarded : task.region = some .trading) (retired : Bool) (now : Nat) :
    (inv.begin retired now task).map (fun p => (p.1.books, p.2)) =
      (inv'.begin retired now task).map (fun p => (p.1.books, p.2)) := by
  obtain ⟨same, signedIn, market⟩ := h
  cases task with
  | top => simp [Task.region] at guarded
  | signin => simp [Task.region] at guarded
  | info => simp [Task.region] at guarded
  | signup => simp only [begin, Except.map, same, signedIn]
  | updateOrders => simp only [begin, Except.map, same]
  | addOrder side amount price => simp only [begin, Except.map, same]
  | removeOrder id =>
    have ledger : inv.ledger = inv'.ledger := congrArg Books.ledger same
    simp only [begin, Except.map, same, ledger]
  | decision =>
    have timing : inv.timing = inv'.timing := congrArg Books.timing same
    have ledger : inv.ledger = inv'.ledger := congrArg Books.ledger same
    have placed : inv.lastOrderAt = inv'.lastOrderAt := congrArg Books.lastOrderAt same
    have trader : inv.trader = inv'.trader := congrArg Books.trader same
    have decided : (inv.decide retired now).map books = (inv'.decide retired now).map books := by
      have due : inv.isPlacementDue now = inv'.isPlacementDue now := by
        simp only [isPlacementDue, ledger, placed, timing]
      have view : inv.situation = inv'.situation := by
        simp only [situation, ledger, market, timing]
      rw [map_books_decide, map_books_decide, due, view, trader, same]
    simp only [begin]
    cases hd : inv.decide retired now <;> cases hd' : inv'.decide retired now <;>
      simp_all [Except.map, bind, Except.bind, pure, Except.pure]

theorem begin_eq_error_of_alike (h : inv.Alike inv') {task : Task}
    (guarded : task.region = some .trading) {retired : Bool} {now : Nat} {fault : Fault}
    (hb : inv.begin retired now task = .error fault) :
    inv'.begin retired now task = .error fault := by
  have same := map_begin_eq h guarded retired now
  rw [hb] at same
  cases hb' : inv'.begin retired now task with
  | error fault' =>
    rw [hb'] at same
    cases same
    rfl
  | ok p =>
    rw [hb'] at same
    cases same

theorem begin_eq_ok_of_alike (h : inv.Alike inv') {task : Task}
    (guarded : task.region = some .trading) {retired : Bool} {now : Nat} {next : Investor}
    {opening : Opening} (hb : inv.begin retired now task = .ok (next, opening)) :
    ∃ next', inv'.begin retired now task = .ok (next', opening) ∧ next'.books = next.books := by
  have same := map_begin_eq h guarded retired now
  rw [hb] at same
  cases hb' : inv'.begin retired now task with
  | error fault =>
    rw [hb'] at same
    cases same
  | ok p =>
    rw [hb'] at same
    obtain ⟨next', opening'⟩ := p
    obtain ⟨books, openings⟩ := Prod.mk.inj (Except.ok.inj same)
    obtain rfl : opening = opening' := openings
    exact ⟨next', rfl, books.symm⟩

theorem receive_eq_of_books (same : inv.books = inv'.books) {c : Call}
    (guarded : c.task.region = some .trading) (now : Nat) (at_ : Timestamp) (r : c.Reply) :
    (inv.receive now at_ c r).1.books = (inv'.receive now at_ c r).1.books ∧
      (inv.receive now at_ c r).2 = (inv'.receive now at_ c r).2 := by
  have rewards : inv.rewards = inv'.rewards := congrArg Books.rewards same
  have ledger : inv.ledger = inv'.ledger := congrArg Books.ledger same
  simp only [books, Books.mk.injEq] at same
  cases c with
  | top => simp [Call.task, Task.region] at guarded
  | signin => simp [Call.task, Task.region] at guarded
  | info cursor => simp [Call.task, Task.region] at guarded
  | _ => cases r <;> simp [receive, books, same]

theorem books_begin {task : Task} (free : task.region ≠ some .trading) {retired : Bool} {now : Nat}
    {opening : Opening} (h : inv.begin retired now task = .ok (inv', opening)) :
    inv'.books = inv.books := by
  cases opening with
  | ask c => rw [(begin_eq_ask h).1]
  | done score =>
    obtain ⟨-, rfl | ⟨rfl, -⟩⟩ := begin_eq_done h
    · rfl
    · exact absurd rfl free

theorem books_receive (inv : Investor) {c : Call} (free : c.task.region ≠ some .trading) (now : Nat)
    (at_ : Timestamp) (r : c.Reply) : (inv.receive now at_ c r).1.books = inv.books := by
  cases c with
  | info cursor =>
    cases r with
    | error failure => rfl
    | ok info =>
      simp only [receive, observe]
      split <;> rfl
  | top => cases r <;> rfl
  | signin => cases r <;> rfl
  | signup => exact absurd rfl free
  | getOrders => exact absurd rfl free
  | addOrder side amount price => exact absurd rfl free
  | deleteOrder id => exact absurd rfl free

end Investor

/-- A reply, and what the clocks show when it comes. -/
structure Answer where
  now : Nat
  wallClock : Timestamp
  call : Call
  reply : call.Reply

/-- A task that has had the trading region: when it went on, what it saw besides, and the reply to
its call, if it has made one and the reply has come. -/
structure Visit where
  job : Nat
  task : Task
  now : Nat
  glance : Glance
  answer : Option Answer

namespace Visit

/-- The reply that the call has had. -/
def replyTo (v : Visit) (c : Call) : c.Reply :=
  match v.answer with
  | none => .error (.internal "no reply")
  | some a => if h : a.call = c then h ▸ a.reply else .error (.internal "a reply to another call")

/-- The clocks and the exchange as the task has met them. -/
def environment (v : Visit) : Environment Unit where
  exchange :=
    { note := fun _ _ u => u
      latency := fun _ _ => v.answer.map fun a => a.now - v.now
      reply := fun c u => (v.replyTo c, u)
      isRetired := fun _ => v.glance.retired
      retire := id }
  wallClock _ := (v.answer.map Answer.wallClock).getD .epoch
  delays _ := 0

/-- The investor as the task sees it. -/
def sees (v : Visit) (inv : Investor) : Investor :=
  { inv with signedIn := v.glance.signedIn, market := v.glance.market }

/-- Runs the task while no other one runs. -/
def perform (v : Visit) (inv : Investor) : Investor × Checked Composite.Ending :=
  let world : World Unit := { investor := v.sees inv, exchange := (), now := v.now, drawn := 0 }
  let (world, result) := world.runTask v.environment none v.task
  (world.investor, result)

/-- Runs tasks one after another, the latest one first in the list, and collects what they come
to. -/
def serial (inv : Investor) : List Visit → Investor × List (Nat × Checked Composite.Ending)
  | [] => (inv, [])
  | v :: earlier =>
    let (inv, results) := serial inv earlier
    let (inv, result) := v.perform inv
    (inv, (v.job, result) :: results)

theorem serial_cons {v : Visit} {earlier : List Visit} {inv next : Investor}
    {result : Checked Composite.Ending}
    (performed : v.perform (serial inv earlier).1 = (next, result)) :
    serial inv (v :: earlier) = (next, (v.job, result) :: (serial inv earlier).2) := by
  simp only [serial, performed]

/-- A delay is over at once. -/
theorem spread_environment (v : Visit) (w : World Unit) :
    ∃ drawn, w.spread v.environment none v.task = ({ w with drawn }, true) := by
  unfold World.spread World.delayOf
  split_ifs with h
  · exact ⟨w.drawn + 1, by simp [environment, World.waitUntil]⟩
  · exact ⟨w.drawn, rfl⟩

theorem perform_environment (v : Visit) (w : World Unit) (c : Call) (here : w.now = v.now) :
    w.perform v.environment none c =
      match v.answer with
      | none => (w, .ok .cut)
      | some a =>
        let now := v.now + (a.now - v.now)
        let received := w.investor.receive now a.wallClock c (v.replyTo c)
        ({ w with investor := received.1, now }, received.2.map .ended) := by
  unfold World.perform World.settle
  cases ha : v.answer with
  | none => simp [environment, World.ask, World.waitUntil, ha]
  | some a =>
    simp [environment, World.ask, World.waitUntil_none, ha, here]

theorem perform_eq (v : Visit) (inv : Investor) :
    v.perform inv =
      match (v.sees inv).begin v.glance.retired v.now v.task with
      | .error fault => (v.sees inv, .error fault)
      | .ok (inv, .done score) => (inv, .ok (.ended (.ok score)))
      | .ok (inv, .ask c) =>
        match v.answer with
        | none => (inv, .ok .cut)
        | some a =>
          let received := inv.receive (v.now + (a.now - v.now)) a.wallClock c (v.replyTo c)
          (received.1, received.2.map .ended) := by
  obtain ⟨drawn, spread⟩ := v.spread_environment ⟨v.sees inv, (), v.now, 0⟩
  unfold perform World.runTask
  simp only [spread]
  cases hb : (v.sees inv).begin v.glance.retired v.now v.task with
  | error fault => simp [World.isRetired, environment, hb]
  | ok p =>
    obtain ⟨next, opening⟩ := p
    cases opening with
    | done score => simp [World.isRetired, environment, hb]
    | ask c =>
      have performed := v.perform_environment ⟨next, (), v.now, drawn⟩ c rfl
      have retired : World.isRetired v.environment ⟨v.sees inv, (), v.now, drawn⟩ =
          v.glance.retired := rfl
      simp only [retired, hb, performed]
      cases v.answer <;> rfl

section

variable {v : Visit} {inv next : Investor}

theorem perform_of_error {fault : Fault}
    (hb : (v.sees inv).begin v.glance.retired v.now v.task = .error fault) :
    v.perform inv = (v.sees inv, .error fault) := by
  rw [perform_eq, hb]

theorem perform_of_done {score : Nat}
    (hb : (v.sees inv).begin v.glance.retired v.now v.task = .ok (next, .done score)) :
    v.perform inv = (next, .ok (.ended (.ok score))) := by
  rw [perform_eq, hb]

theorem perform_of_unanswered {c : Call}
    (hb : (v.sees inv).begin v.glance.retired v.now v.task = .ok (next, .ask c))
    (unanswered : v.answer = none) : v.perform inv = (next, .ok .cut) := by
  rw [perform_eq, hb]
  simp only [unanswered]

theorem perform_of_answered {c : Call} {now : Nat} {at_ : Timestamp} {r : c.Reply}
    (hb : (v.sees inv).begin v.glance.retired v.now v.task = .ok (next, .ask c))
    (answered : v.answer = some ⟨now, at_, c, r⟩) (past : v.now ≤ now) :
    v.perform inv =
      ((next.receive now at_ c r).1, (next.receive now at_ c r).2.map .ended) := by
  have reply : v.replyTo c = r := by simp [replyTo, answered]
  have moment : v.now + (now - v.now) = now := by omega
  rw [perform_eq, hb]
  simp only [answered, reply, moment]

end

/-- The task waits for the reply to a call that it makes by itself too. -/
structure Awaits (v : Visit) (c : Call) (inv : Investor) (now : Nat) : Prop where
  unanswered : v.answer = none
  past : v.now ≤ now
  asks : ∃ next, (v.sees inv).begin v.glance.retired v.now v.task = .ok (next, .ask c)

end Visit

namespace Concurrent

open Visit

/-- The tasks that have had the trading region, the latest first, with the replies that have come.
-/
def visits : List Event → List Visit
  | [] => []
  | .entered job task now glance _ :: earlier =>
    if task.region = some .trading then ⟨job, task, now, glance, none⟩ :: visits earlier
    else visits earlier
  | .answered job now wallClock c r :: earlier =>
    (visits earlier).map fun v =>
      if v.job = job then { v with answer := some ⟨now, wallClock, c, r⟩ } else v

variable {σ : Type} {env : Environment σ} {stirs : σ → σ → Prop} {s t : Concurrent σ}
  {inv : Investor} {history : List Event} {i : Nat} {task : Task}

/-- What the trading region guards is what it is after the tasks one after another. -/
structure Serialized (inv : Investor) (history : List Event) (s : Concurrent σ) : Prop where
  books : (serial inv (visits history)).1.books = s.world.investor.books
  results : ∀ i task result, s.jobs[i]? = some ⟨task, .over result⟩ →
    task.region = some .trading → (i, .ok (.ended result)) ∈ (serial inv (visits history)).2
  known : ∀ v ∈ visits history, v.task.region = some .trading ∧
    ∃ stage, s.jobs[v.job]? = some ⟨v.task, stage⟩ ∧ (s.fault = none → stage.hasEntered)
  nodup : ((visits history).map Visit.job).Nodup
  /-- A task that waits for a reply is the latest one that has had the region. -/
  waiting : s.fault = none → ∀ i task c due, s.jobs[i]? = some ⟨task, .asking c due⟩ →
    task.region = some .trading →
    ∃ v earlier, visits history = v :: earlier ∧ v.job = i ∧
      v.Awaits c (serial inv earlier).1 s.world.now

theorem serialized_new (w : World σ) (tasks : List Task) :
    Serialized w.investor [] (new w tasks) := by
  have fresh : ∀ (i : Nat) job, (new w tasks).jobs[i]? = some job → job.stage = .fresh := by
    intro i job here
    simp only [new, List.getElem?_map, Option.map_eq_some_iff] at here
    obtain ⟨task, -, rfl⟩ := here
    rfl
  refine ⟨rfl, ?_, by simp [visits], by simp [visits], ?_⟩
  · intro i task result here
    cases fresh i _ here
  · intro sound i task c due here
    cases fresh i _ here

/-- Neither what the region guards nor a task that has had it has changed. -/
theorem Serialized.quiet (hs : Serialized inv history s) {history' : List Event}
    (same : visits history' = visits history)
    (books : t.world.investor.books = s.world.investor.books)
    (passes : s.world.now ≤ t.world.now)
    (sound : t.fault = none → s.fault = none)
    (entered : ∀ (j : Nat) (job : Job), job.stage.hasEntered → job.task.region = some .trading →
      t.jobs[j]? = some job → s.jobs[j]? = some job)
    (known : ∀ (j : Nat) (task : Task) (stage : Stage), s.jobs[j]? = some ⟨task, stage⟩ →
      task.region = some .trading → (s.fault = none → stage.hasEntered) →
      ∃ stage', t.jobs[j]? = some ⟨task, stage'⟩ ∧ (t.fault = none → stage'.hasEntered)) :
    Serialized inv history' t := by
  refine ⟨?_, ?_, ?_, ?_, ?_⟩
  · rw [same, books]
    exact hs.books
  · intro i task result here guarded
    rw [same]
    exact hs.results i task result (entered i _ rfl guarded here) guarded
  · intro v mem
    rw [same] at mem
    obtain ⟨guarded, stage, here, had⟩ := hs.known v mem
    exact ⟨guarded, known v.job v.task stage here guarded had⟩
  · rw [same]
    exact hs.nodup
  · intro sound' i task c due here guarded
    rw [same]
    obtain ⟨v, earlier, first, job, awaits⟩ :=
      hs.waiting (sound sound') i task c due (entered i _ rfl guarded here) guarded
    exact ⟨v, earlier, first, job, awaits.unanswered, Nat.le_trans awaits.past passes, awaits.asks⟩

/-- A task has moved that has no part in what the region guards. -/
theorem Serialized.apart (hs : Serialized inv history s) {history' : List Event}
    (same : visits history' = visits history)
    (books : t.world.investor.books = s.world.investor.books)
    (passes : s.world.now ≤ t.world.now) (sound : s.fault = none)
    (others : ∀ j, j ≠ i → t.jobs[j]? = s.jobs[j]?) {stage stage' : Stage}
    (before : s.jobs[i]? = some ⟨task, stage⟩) (after : t.jobs[i]? = some ⟨task, stage'⟩)
    (outside : task.region = some .trading →
      stage.hasEntered = false ∧ stage'.hasEntered = false) :
    Serialized inv history' t := by
  apply hs.quiet same books passes (fun _ => sound)
  · intro j job had guarded here
    by_cases self : j = i
    · rw [self, after] at here
      cases here
      rw [(outside guarded).2] at had
      cases had
    · rw [← others j self]
      exact here
  · intro j task' stage₁ here guarded had
    by_cases self : j = i
    · rw [self, before] at here
      cases here
      rw [(outside guarded).1] at had
      cases had sound
    · rw [others j self]
      exact ⟨stage₁, here, fun _ => had sound⟩

/-- A task has got the region and goes on. -/
theorem Serialized.visit {v : Visit} {history' : List Event} {next : Investor}
    {result : Checked Composite.Ending} (hs : Serialized inv history s)
    (first : visits history' = v :: visits history)
    (performed : v.perform (serial inv (visits history)).1 = (next, result))
    (books : next.books = t.world.investor.books) (sound : s.fault = none)
    (guarded : v.task.region = some .trading)
    (before : ∃ stage, s.jobs[v.job]? = some ⟨v.task, stage⟩ ∧ stage.hasEntered = false)
    (others : ∀ j, j ≠ v.job → t.jobs[j]? = s.jobs[j]?)
    (alone : ∀ (j : Nat) task c due, s.jobs[j]? = some ⟨task, .asking c due⟩ →
      task.region ≠ some .trading)
    (after : ∃ stage, t.jobs[v.job]? = some ⟨v.task, stage⟩ ∧
      (t.fault = none → stage.hasEntered) ∧
      (∀ r, stage = .over r → result = .ok (.ended r)) ∧
      (∀ c due, stage = .asking c due →
        v.Awaits c (serial inv (visits history)).1 t.world.now)) :
    Serialized inv history' t := by
  obtain ⟨stage₀, here₀, outside⟩ := before
  obtain ⟨stage, here, had, ends, asks⟩ := after
  have whole : serial inv (visits history') =
      (next, (v.job, result) :: (serial inv (visits history)).2) := by
    rw [first, serial_cons performed]
  have unknown : v.job ∉ (visits history).map Visit.job := by
    intro known
    obtain ⟨v', mem, self⟩ := List.mem_map.mp known
    obtain ⟨-, stage', here', had'⟩ := hs.known v' mem
    rw [self, here₀] at here'
    have same : stage₀ = stage' := congrArg Job.stage (Option.some.inj here')
    rw [same, had' sound] at outside
    cases outside
  refine ⟨?_, ?_, ?_, ?_, ?_⟩
  · rw [whole]
    exact books
  · intro i task r ended guarded'
    rw [whole]
    by_cases self : i = v.job
    · rw [self, here] at ended
      cases ended
      rw [ends r rfl, self]
      exact List.mem_cons_self
    · rw [others i self] at ended
      exact List.mem_cons_of_mem _ (hs.results i task r ended guarded')
  · intro v' mem
    rw [first] at mem
    obtain rfl | mem := List.mem_cons.mp mem
    · exact ⟨guarded, stage, here, had⟩
    · obtain ⟨guarded', stage', here', had'⟩ := hs.known v' mem
      have other : v'.job ≠ v.job := by
        intro self
        exact unknown (self ▸ List.mem_map_of_mem mem)
      rw [others _ other]
      exact ⟨guarded', stage', here', fun _ => had' sound⟩
  · rw [first, List.map_cons]
    exact List.nodup_cons.mpr ⟨unknown, hs.nodup⟩
  · intro _ i task c due asking guarded'
    by_cases self : i = v.job
    · rw [self, here] at asking
      cases asking
      exact ⟨v, _, first, self.symm, asks c due rfl⟩
    · rw [others i self] at asking
      exact absurd guarded' (alone i task c due asking)

theorem Serialized.opened {u : Concurrent σ} (hs : Serialized inv history s) (hg : s.Guarded)
    (sound : s.fault = none) (enters : Enters s i task u) (opens : Opened env u i task t) :
    Serialized inv
      (.entered i task s.world.now (s.world.glance env) (s.world.callOf env task) :: history)
      t := by
  obtain ⟨stage, here, outside⟩ := enters.here
  have here' : u.jobs[i]? = some ⟨task, stage⟩ := by rw [enters.jobs_eq]; exact here
  have others : ∀ j, j ≠ i → t.jobs[j]? = s.jobs[j]? := by
    intro j other
    rw [opens.job_of_ne other, enters.jobs_eq]
  by_cases guarded : task.region = some .trading
  · have alone : ∀ (j : Nat) task' c due, s.jobs[j]? = some ⟨task', .asking c due⟩ →
        task'.region ≠ some .trading := fun j task' c due asking => hg.alone enters asking guarded
    generalize hv : (⟨i, task, s.world.now, s.world.glance env, none⟩ : Visit) = v
    have first : visits (.entered i task s.world.now (s.world.glance env)
        (s.world.callOf env task) :: history) = v :: visits history := by
      rw [visits, if_pos guarded, hv]
    have alike : s.world.investor.Alike (v.sees (serial inv (visits history)).1) := by
      subst hv
      exact ⟨hs.books.symm, rfl, rfl⟩
    subst hv
    cases opens with
    | fault hb =>
      rw [enters.world_eq] at hb
      have again := Investor.begin_eq_error_of_alike alike guarded hb
      refine hs.visit first (perform_of_error again) ?_ sound guarded ⟨stage, here, outside⟩
        others alone ⟨stage, here', ?_, ?_, ?_⟩
      · rw [enters.world_eq]
        exact hs.books
      · intro broken
        cases broken
      · rintro r rfl
        cases outside
      · rintro c due rfl
        cases outside
    | @done investor score hb =>
      rw [enters.world_eq] at hb
      obtain ⟨next, again, books⟩ := Investor.begin_eq_ok_of_alike alike guarded hb
      refine hs.visit first (perform_of_done again) ?_ sound guarded ⟨stage, here, outside⟩
        others alone ⟨.over (.ok score), ?_, fun _ => rfl, ?_, ?_⟩
      · rw [world_close]
        exact books
      · rw [jobs_close]
        exact job_setStage (s := { u with world := { u.world with investor } }) here' _
      · intro r ends
        cases ends
        rfl
      · intro c due asks
        cases asks
    | @ask c due same hb =>
      rw [enters.world_eq] at hb
      obtain ⟨next, again, books⟩ := Investor.begin_eq_ok_of_alike alike guarded hb
      refine hs.visit first (perform_of_unanswered again rfl) ?_ sound guarded
        ⟨stage, here, outside⟩ others alone ⟨.asking c due, ?_, fun _ => rfl, ?_, ?_⟩
      · rw [world_setStage]
        simp only [World.ask, enters.world_eq]
        exact books
      · exact job_setStage (s := { u with world := u.world.ask env c }) here' _
      · intro r ends
        cases ends
      · intro c' due' asks
        cases asks
        refine ⟨rfl, ?_, next, again⟩
        rw [world_setStage]
        simp only [World.ask, enters.world_eq]
        exact Nat.le_refl _
  · have first : visits (.entered i task s.world.now (s.world.glance env)
        (s.world.callOf env task) :: history) = visits history := by
      rw [visits, if_neg guarded]
    have now : t.world.now = s.world.now := by rw [opens.now_eq, enters.world_eq]
    obtain ⟨stage', after⟩ := opens.job here'
    refine hs.apart first ?_ (Nat.le_of_eq now.symm) sound others here after
      (fun has => absurd has guarded)
    obtain same | ⟨opening, hb⟩ := opens.investor
    · rw [same, enters.world_eq]
    · rw [Investor.books_begin guarded hb, enters.world_eq]

/-- A reply to a task that is not among the visitors. -/
theorem map_answer_of_ne {visitors : List Visit} (answer : Answer)
    (others : ∀ v ∈ visitors, v.job ≠ i) :
    (visitors.map fun v => if v.job = i then { v with answer := some answer } else v) =
      visitors := by
  conv_rhs => rw [← List.map_id visitors]
  apply List.map_congr_left
  intro v mem
  rw [if_neg (others v mem)]
  rfl

/-- The reply to the call of the task that has had the region last. -/
theorem visits_answered {v : Visit} {earlier : List Visit} {now : Nat} {at_ : Timestamp} {c : Call}
    {r : c.Reply} (first : visits history = v :: earlier)
    (others : ∀ v' ∈ earlier, v'.job ≠ v.job) :
    visits (.answered v.job now at_ c r :: history) =
      { v with answer := some ⟨now, at_, c, r⟩ } :: earlier := by
  rw [visits, first, List.map_cons, if_pos rfl, map_answer_of_ne ⟨now, at_, c, r⟩ others]

/-- While a task waits for a reply, its visit is one that has changed nothing. -/
theorem Serialized.awaiting (hs : Serialized inv history s) {v : Visit} {earlier : List Visit}
    {c : Call} {now : Nat} (first : visits history = v :: earlier)
    (awaits : v.Awaits c (serial inv earlier).1 now) :
    (∃ next, (v.sees (serial inv earlier).1).begin v.glance.retired v.now v.task =
        .ok (next, .ask c) ∧ next.books = s.world.investor.books) ∧
      ∀ j task r, s.jobs[j]? = some ⟨task, .over r⟩ → task.region = some .trading →
        (j, .ok (.ended r)) ∈ (serial inv earlier).2 := by
  obtain ⟨next, hb⟩ := awaits.asks
  have cut : v.perform (serial inv earlier).1 = (next, .ok .cut) :=
    perform_of_unanswered hb awaits.unanswered
  constructor
  · have books := hs.books
    rw [first, serial_cons cut] at books
    exact ⟨next, hb, books⟩
  · intro j task r ended guarded
    have told := hs.results j task r ended guarded
    rw [first, serial_cons cut] at told
    obtain same | told := List.mem_cons.mp told
    · cases same
    · exact told

/-- The reply to a task that has the region has come. -/
theorem Serialized.answered (hs : Serialized inv history s) (sound : s.fault = none) {c : Call}
    {due : Option Nat} (here : s.jobs[i]? = some ⟨task, .asking c due⟩)
    (settles : Settled env s i task c t) (own : task = c.task)
    (guarded : task.region = some .trading) (at_ : Timestamp) (r : c.Reply)
    (received : t.world.investor = (s.world.investor.receive s.world.now at_ c r).1)
    (outcome : (s.world.settle env c).2 = (s.world.investor.receive s.world.now at_ c r).2) :
    Serialized inv (.answered i s.world.now at_ c r :: history) t := by
  obtain ⟨v, earlier, first, rfl, awaits⟩ := hs.waiting sound i task c due here guarded
  obtain ⟨⟨next, hb, books⟩, earned⟩ := hs.awaiting first awaits
  have others : ∀ j, j ≠ v.job → t.jobs[j]? = s.jobs[j]? := fun j other => settles.job_of_ne other
  have nodup : ((v :: earlier).map Visit.job).Nodup := first ▸ hs.nodup
  have others' : ∀ v' ∈ earlier, v'.job ≠ v.job := by
    intro v' mem self
    exact (List.nodup_cons.mp nodup).1 (self ▸ List.mem_map_of_mem mem)
  have second : visits (.answered v.job s.world.now at_ c r :: history) =
      { v with answer := some ⟨s.world.now, at_, c, r⟩ } :: earlier := visits_answered first others'
  have performed := perform_of_answered (v := { v with answer := some ⟨s.world.now, at_, c, r⟩ })
    hb rfl awaits.past
  obtain ⟨same, results⟩ := Investor.receive_eq_of_books books (own ▸ guarded) s.world.now at_ r
  refine ⟨?_, ?_, ?_, ?_, ?_⟩
  · rw [second, serial_cons performed, received]
    exact same
  · intro j task' r' ended guarded'
    rw [second, serial_cons performed]
    by_cases self : j = v.job
    · obtain ⟨fault, -, -, asking⟩ | ⟨result, ends, ended'⟩ := settles.stage here
      · rw [self, asking] at ended
        cases ended
      · rw [self, ended'] at ended
        cases ended
        rw [ends] at outcome
        rw [results, ← outcome, self]
        exact List.mem_cons_self
    · rw [others j self] at ended
      exact List.mem_cons_of_mem _ (earned j task' r' ended guarded')
  · intro v' mem
    rw [second] at mem
    obtain rfl | mem := List.mem_cons.mp mem
    · obtain ⟨guarded', stage, here', -⟩ := hs.known v (first ▸ List.mem_cons_self)
      rw [here] at here'
      cases here'
      refine ⟨guarded', ?_⟩
      obtain ⟨fault, -, -, asking⟩ | ⟨result, -, ended⟩ := settles.stage here
      · exact ⟨_, asking, fun _ => rfl⟩
      · exact ⟨_, ended, fun _ => rfl⟩
    · rw [others _ (others' v' mem)]
      obtain ⟨guarded', stage, here', had⟩ := hs.known v' (first ▸ List.mem_cons_of_mem _ mem)
      exact ⟨guarded', stage, here', fun _ => had sound⟩
  · rw [second]
    exact nodup
  · intro sound' j task' c' due' asking guarded'
    exfalso
    by_cases self : j = v.job
    · obtain ⟨fault, -, broken, -⟩ | ⟨result, -, ended⟩ := settles.stage here
      · rw [sound'] at broken
        cases broken
      · rw [self, ended] at asking
        cases asking
    · rw [others j self] at asking
      obtain ⟨v', earlier', first', job, -⟩ := hs.waiting sound j task' c' due' asking guarded'
      rw [first] at first'
      obtain ⟨rfl, -⟩ := List.cons.inj first'
      exact self job.symm

theorem Serialized.settled (hs : Serialized inv history s) (hg : s.Guarded)
    (sound : s.fault = none) {c : Call} {due : Option Nat}
    (here : s.jobs[i]? = some ⟨task, .asking c due⟩) (settles : Settled env s i task c t) :
    Serialized inv
      (.answered i s.world.now (env.wallClock s.world.now) c
        (env.exchange.reply c s.world.exchange).1 :: history) t := by
  obtain ⟨own, -⟩ := hg i task c due here
  have received : t.world.investor = (s.world.investor.receive s.world.now
      (env.wallClock s.world.now) c (env.exchange.reply c s.world.exchange).1).1 := by
    rw [settles.world]
    rfl
  by_cases guarded : task.region = some .trading
  · exact hs.answered sound here settles own guarded _ _ received rfl
  · have unknown : ∀ v ∈ visits history, v.job ≠ i := by
      intro v mem same
      obtain ⟨guarded', stage, here', -⟩ := hs.known v mem
      rw [same, here] at here'
      cases here'
      exact guarded guarded'
    have now : t.world.now = s.world.now := by
      rw [settles.world]
      rfl
    obtain ⟨stage', after⟩ := settles.job here
    refine hs.apart (map_answer_of_ne _ unknown) ?_ (Nat.le_of_eq now.symm) sound
      (fun j other => settles.job_of_ne other) here after (fun has => absurd has guarded)
    rw [received]
    exact Investor.books_receive _ (own ▸ guarded) _ _ _

theorem serialized_step {event : Option Event} (h : Step env stirs s event t) (hg : s.Guarded)
    (hs : Serialized inv history s) : Serialized inv (event.toList ++ history) t := by
  cases h with
  | wait now h =>
    refine hs.quiet rfl rfl h (fun sound => sound) ?_ ?_
    · intro j job had guarded here
      exact here
    · intro j task stage here guarded had
      exact ⟨stage, here, had⟩
  | stir exchange h =>
    refine hs.quiet rfl rfl (Nat.le_refl _) (fun sound => sound) ?_ ?_
    · intro j job had guarded here
      exact here
    · intro j task stage here guarded had
      exact ⟨stage, here, had⟩
  | move i h shows =>
    obtain ⟨sound, moves⟩ := moves_of_step h shows
    have others : ∀ j, j ≠ i → t.jobs[j]? = s.jobs[j]? := fun j other => moves.job_of_ne other
    cases moves with
    | @nap task drawn wake here =>
      have after := job_setStage (s := { s with world := { s.world with drawn } }) here
      exact hs.apart rfl rfl (Nat.le_refl _) sound others here (after _) fun _ => ⟨rfl, rfl⟩
    | @queue task stage r here outside guarded held =>
      have here' : (s.setLock r ((s.lock r).request i)).jobs[i]? = some ⟨task, stage⟩ := by
        rw [jobs_setLock]
        exact here
      have waits := Stage.not_hasEntered_of_isOutside outside
      refine hs.apart rfl ?_ ?_ sound others here (job_setStage here' _) fun _ => ⟨waits, rfl⟩
      · rw [world_setStage, world_setLock]
      · rw [world_setStage, world_setLock]
    | enter enters opens => exact hs.opened hg sound enters opens
    | settle here settles => exact hs.settled hg sound here settles

theorem serialized_of_runs {w : World σ} {tasks : List Task}
    (run : Runs env stirs w tasks history s) : Serialized w.investor history s := by
  induction run with
  | refl => exact serialized_new w tasks
  | step before last ih => exact serialized_step last (guarded_of_runs before) ih

/-- Tasks side by side are serializable. At most one call of the trading region is under way, and
the ledger, the time of the last order, the trader and the results of the tasks with that region are
those of the same tasks one after another, in the order in which they have got the region. -/
theorem serializable {w : World σ} {tasks : List Task} (run : Runs env stirs w tasks history s) :
    s.inFlight.countP (fun c => c.task.region = some .trading) ≤ 1 ∧
      (serial w.investor (visits history)).1.ledger = s.world.investor.ledger ∧
      (serial w.investor (visits history)).1.lastOrderAt = s.world.investor.lastOrderAt ∧
      (serial w.investor (visits history)).1.trader = s.world.investor.trader ∧
      ((visits history).map Visit.job).Nodup ∧
      (∀ v ∈ visits history, v.task.region = some .trading ∧ tasks[v.job]? = some v.task) ∧
      ∀ i task result, s.jobs[i]? = some ⟨task, .over result⟩ → task.region = some .trading →
        (i, .ok (.ended result)) ∈ (serial w.investor (visits history)).2 := by
  have serialized := serialized_of_runs run
  refine ⟨(guarded_of_runs run).countP_inFlight_le .trading, congrArg Books.ledger serialized.books,
    congrArg Books.lastOrderAt serialized.books, congrArg Books.trader serialized.books,
    serialized.nodup, ?_, serialized.results⟩
  intro v mem
  obtain ⟨guarded, stage, here, -⟩ := serialized.known v mem
  exact ⟨guarded, task_of_runs run here⟩

/-- A reconciliation that has to wait for a placement, and a poll beside them. -/
theorem serializable_of_placement_and_fetch :
    ∃ inv history s,
      Investor.new "investor" ⟨500, 0, 5, 100, 1⟩ .standard .standard (.ofSeed 0) = .ok inv ∧
      Runs Course.scripted (fun _ _ => False) (.new inv .initial)
        [.addOrder .buy 5 100, .updateOrders, .info] history s ∧
      (visits history).map Visit.job = [1, 0] ∧
      s.world.investor.ledger.orders = [.placed 1 .buy 5 100 ScriptedExchange.openingTime] ∧
      (serial inv (visits history)).1.ledger = s.world.investor.ledger ∧
      (0, .ok (.ended (.ok Rewards.standard.addOrder))) ∈ (serial inv (visits history)).2 := by
  have rehearsal : (rehearse Course.scripted ⟨500, 0, 5, 100, 1⟩ .standard .initial
      [.addOrder .buy 5 100, .updateOrders, .info]
      [.go 0, .go 1, .go 2, .go 2, .go 0, .go 1, .go 1]).any fun r =>
        decide ((visits r.1).map Visit.job = [1, 0]) &&
        decide (r.2.world.investor.ledger.orders =
          [.placed 1 .buy 5 100 ScriptedExchange.openingTime]) &&
        decide (r.2.jobs[0]? =
          some ⟨.addOrder .buy 5 100, .over (.ok Rewards.standard.addOrder)⟩) := by decide
  obtain ⟨inv, history, s, hi, run, found⟩ := exists_run_of_rehearse (fun _ _ => False) rehearsal
  simp only [Bool.and_eq_true, decide_eq_true_eq] at found
  obtain ⟨⟨order, placed⟩, ended⟩ := found
  obtain ⟨-, ledger, -, -, -, -, results⟩ := serializable run
  exact ⟨inv, history, s, hi, run, order, placed, ledger, results 0 _ _ ended rfl⟩

end Concurrent

end TradingLoad
