import TradingLoad.Proofs.Run.Tasks
import TradingLoad.Schedule.Concurrent
import Mathlib.Data.List.Perm.Basic

namespace TradingLoad

/-- What a task sees when it goes on that its region does not guard. -/
structure Glance where
  retired : Bool
  signedIn : Bool
  market : MarketView
  deriving DecidableEq, Repr

namespace World

variable {σ : Type}

def glance (env : Environment σ) (w : World σ) : Glance :=
  ⟨w.isRetired env, w.investor.signedIn, w.investor.market⟩

/-- The call that a task makes when it goes on. -/
def callOf (env : Environment σ) (w : World σ) (task : Task) : Option Call :=
  match w.investor.begin (w.isRetired env) w.now task with
  | .ok (_, .ask c) => some c
  | _ => none

/-- Without a deadline every moment comes. -/
theorem waitUntil_none (w : World σ) (moment : Nat) :
    w.waitUntil none (some moment) = ({ w with now := max w.now moment }, true) := by
  simp only [waitUntil, isUp, meets, Bool.false_eq_true, if_false, if_true]
  split
  · next past => rw [max_eq_left past]
  · next future => rw [max_eq_right (Nat.le_of_not_le future)]

end World

/-- The task has not asked for its region. -/
def Stage.isOutside : Stage → Bool
  | .fresh => true
  | .napping _ => true
  | _ => false

/-- The task has had its region, and has made its call or is over. -/
def Stage.hasEntered : Stage → Bool
  | .asking _ _ => true
  | .over _ => true
  | _ => false

theorem Stage.not_hasEntered_of_isOutside {stage : Stage} (h : stage.isOutside) :
    stage.hasEntered = false := by
  cases stage <;> simp_all [isOutside, hasEntered]

deriving instance DecidableEq for Stage, Job

namespace Concurrent

/-- What the move of a task shows. -/
inductive Event where
  /-- A task goes on with its region, if it needs one, and makes a call or none. -/
  | entered (job : Nat) (task : Task) (now : Nat) (glance : Glance) (call : Option Call)
  /-- The reply to the call of a task has come, and is dealt with. -/
  | answered (job : Nat) (now : Nat) (wallClock : Timestamp) (c : Call) (r : c.Reply)

variable {σ : Type} {env : Environment σ} {stirs : σ → σ → Prop}

section Fields

variable (s : Concurrent σ) (r r' : Region) (l : Lock) (i j : Nat) (stage : Stage) (task : Task)
  (result : Except Failure Nat)

@[simp] theorem world_setLock : (s.setLock r l).world = s.world := by cases r <;> rfl
@[simp] theorem jobs_setLock : (s.setLock r l).jobs = s.jobs := by cases r <;> rfl
@[simp] theorem fault_setLock : (s.setLock r l).fault = s.fault := by cases r <;> rfl

theorem lock_setLock : (s.setLock r l).lock r' = if r = r' then l else s.lock r' := by
  cases r <;> cases r' <;> rfl

@[simp] theorem world_setStage : (s.setStage i stage).world = s.world := rfl
@[simp] theorem fault_setStage : (s.setStage i stage).fault = s.fault := rfl
@[simp] theorem lock_setStage : (s.setStage i stage).lock r = s.lock r := by cases r <;> rfl

@[simp] theorem world_close : (s.close i task result).world = s.world := by
  unfold close
  cases task.region with
  | none => rfl
  | some r => exact world_setLock _ _ _

@[simp] theorem fault_close : (s.close i task result).fault = s.fault := by
  unfold close
  cases task.region with
  | none => rfl
  | some r => exact fault_setLock _ _ _

@[simp] theorem jobs_close : (s.close i task result).jobs = (s.setStage i (.over result)).jobs := by
  unfold close
  cases task.region with
  | none => rfl
  | some r => exact jobs_setLock _ _ _

theorem lock_close : (s.close i task result).lock r =
    if task.region = some r then (s.lock r).release else s.lock r := by
  unfold close
  cases hr : task.region with
  | none => simp
  | some r' =>
    simp only [lock_setLock, lock_setStage, Option.some.injEq]
    split
    · next same => rw [same]
    · rfl

end Fields

/-- A task at a new stage; the other tasks stay where they are. -/
theorem jobs_setStage {s : Concurrent σ} {i : Nat} {task : Task} {stage : Stage}
    (here : s.jobs[i]? = some ⟨task, stage⟩) (stage' : Stage) :
    (s.setStage i stage').jobs = s.jobs.set i ⟨task, stage'⟩ := by
  have changed :=
    List.modify_eq_set_getElem? (fun job : Job => { job with stage := stage' }) i s.jobs
  rw [here] at changed
  exact changed

theorem job_setStage {s : Concurrent σ} {i : Nat} {task : Task} {stage : Stage}
    (here : s.jobs[i]? = some ⟨task, stage⟩) (stage' : Stage) :
    (s.setStage i stage').jobs[i]? = some ⟨task, stage'⟩ := by
  obtain ⟨inside, -⟩ := List.getElem?_eq_some_iff.mp here
  rw [jobs_setStage here, List.getElem?_set_self inside]

theorem job_setStage_of_ne (s : Concurrent σ) {i j : Nat} (other : j ≠ i) (stage : Stage) :
    (s.setStage i stage).jobs[j]? = s.jobs[j]? := by
  rw [setStage, List.getElem?_modify_ne _ _ (Ne.symm other)]

/-- A task would have its region at once, if it needs one. -/
def admits (s : Concurrent σ) (i : Nat) (task : Task) : Bool :=
  match task.region with
  | none => true
  | some r => ((s.lock r).request i).holder = some i

/-- What the next step of a task shows. -/
def event? (env : Environment σ) (s : Concurrent σ) (i : Nat) : Option Event :=
  match s.jobs[i]? with
  | none => none
  | some ⟨task, stage⟩ =>
    let entered : Event :=
      .entered i task s.world.now (s.world.glance env) (s.world.callOf env task)
    match stage with
    | .fresh => if (s.world.delayOf env task).isNone && s.admits i task then some entered else none
    | .napping _ => if s.admits i task then some entered else none
    | .queued => some entered
    | .asking c _ =>
      some (.answered i s.world.now (env.wallClock s.world.now) c
        (env.exchange.reply c s.world.exchange).1)
    | .over _ => none

/-- A task goes on, in the second state: its region, if it needs one, is its own from now on. -/
inductive Enters (s : Concurrent σ) (i : Nat) (task : Task) : Concurrent σ → Prop
  | unguarded {stage} (here : s.jobs[i]? = some ⟨task, stage⟩) (outside : stage.isOutside)
      (unguarded : task.region = none) : Enters s i task s
  | atOnce {stage r} (here : s.jobs[i]? = some ⟨task, stage⟩) (outside : stage.isOutside)
      (guarded : task.region = some r) (first : ((s.lock r).request i).holder = some i) :
      Enters s i task (s.setLock r ((s.lock r).request i))
  | called {r} (here : s.jobs[i]? = some ⟨task, .queued⟩) (guarded : task.region = some r)
      (turn : (s.lock r).holder = some i) : Enters s i task s

/-- What comes of a task that goes on: a fault, its end, or its call. -/
inductive Opened (env : Environment σ) (s : Concurrent σ) (i : Nat) (task : Task) :
    Concurrent σ → Prop
  | fault {fault}
      (h : s.world.investor.begin (s.world.isRetired env) s.world.now task = .error fault) :
      Opened env s i task { s with fault := some fault }
  | done {investor score}
      (h : s.world.investor.begin (s.world.isRetired env) s.world.now task =
        .ok (investor, .done score)) :
      Opened env s i task ({ s with world := { s.world with investor } }.close i task (.ok score))
  | ask {c due} (same : task = c.task)
      (h : s.world.investor.begin (s.world.isRetired env) s.world.now task =
        .ok (s.world.investor, .ask c)) :
      Opened env s i task ({ s with world := s.world.ask env c }.setStage i (.asking c due))

theorem opened_openUp (s : Concurrent σ) (i : Nat) (task : Task) :
    Opened env s i task (s.openUp env i task) := by
  unfold openUp
  split
  · next h => exact .fault h
  · next h => exact .done h
  · next h =>
    obtain ⟨rfl, same⟩ := Investor.begin_eq_ask h
    exact .ask same h

/-- What comes of a task whose reply is dealt with: a fault or its end. -/
inductive Settled (env : Environment σ) (s : Concurrent σ) (i : Nat) (task : Task) (c : Call) :
    Concurrent σ → Prop
  | fault {w fault} (h : s.world.settle env c = (w, .error fault)) :
      Settled env s i task c { s with world := w, fault := some fault }
  | ends {w result} (h : s.world.settle env c = (w, .ok result)) :
      Settled env s i task c ({ s with world := w }.close i task result)

theorem settled_settle (s : Concurrent σ) (i : Nat) (task : Task) (c : Call) :
    Settled env s i task c (s.settle env i task c) := by
  unfold settle
  split
  · next h => exact .fault h
  · next h => exact .ends h

section Change

variable {s t : Concurrent σ} {i : Nat} {task : Task} {c : Call}

theorem Enters.world_eq (h : Enters s i task t) : t.world = s.world := by
  cases h with
  | unguarded => rfl
  | atOnce => exact world_setLock _ _ _
  | called => rfl

theorem Enters.jobs_eq (h : Enters s i task t) : t.jobs = s.jobs := by
  cases h with
  | unguarded => rfl
  | atOnce => exact jobs_setLock _ _ _
  | called => rfl

theorem Enters.fault_eq (h : Enters s i task t) : t.fault = s.fault := by
  cases h with
  | unguarded => rfl
  | atOnce => exact fault_setLock _ _ _
  | called => rfl

theorem Enters.here (h : Enters s i task t) :
    ∃ stage, s.jobs[i]? = some ⟨task, stage⟩ ∧ stage.hasEntered = false := by
  cases h with
  | unguarded here outside => exact ⟨_, here, Stage.not_hasEntered_of_isOutside outside⟩
  | atOnce here outside => exact ⟨_, here, Stage.not_hasEntered_of_isOutside outside⟩
  | called here => exact ⟨_, here, rfl⟩

theorem Opened.now_eq (h : Opened env s i task t) : t.world.now = s.world.now := by
  cases h with
  | fault h => rfl
  | done h => rw [world_close]
  | ask same h => rfl

theorem Opened.job_of_ne {j : Nat} (h : Opened env s i task t) (other : j ≠ i) :
    t.jobs[j]? = s.jobs[j]? := by
  cases h with
  | fault h => rfl
  | @done investor score h =>
    rw [jobs_close, job_setStage_of_ne { s with world := { s.world with investor } } other]
  | @ask c due same h =>
    exact job_setStage_of_ne { s with world := s.world.ask env c } other _

/-- A task that has gone on is over or waits for a reply, unless it was a fault. -/
theorem Opened.stage (h : Opened env s i task t) {stage : Stage}
    (here : s.jobs[i]? = some ⟨task, stage⟩) :
    t.jobs[i]? = some ⟨task, stage⟩ ∨ (∃ score, t.jobs[i]? = some ⟨task, .over (.ok score)⟩) ∨
      ∃ c due, t.jobs[i]? = some ⟨task, .asking c due⟩ := by
  cases h with
  | fault h => exact .inl here
  | @done investor score h =>
    refine .inr (.inl ⟨score, ?_⟩)
    rw [jobs_close]
    exact job_setStage (s := { s with world := { s.world with investor } }) here _
  | @ask c due same h =>
    exact .inr (.inr ⟨c, due, job_setStage (s := { s with world := s.world.ask env c }) here _⟩)

theorem Opened.job (h : Opened env s i task t) {stage : Stage}
    (here : s.jobs[i]? = some ⟨task, stage⟩) : ∃ stage', t.jobs[i]? = some ⟨task, stage'⟩ := by
  obtain same | ⟨score, ended⟩ | ⟨c, due, asking⟩ := h.stage here
  · exact ⟨stage, same⟩
  · exact ⟨_, ended⟩
  · exact ⟨_, asking⟩

/-- A task that goes on does to the investor what it does before its call, or nothing. -/
theorem Opened.investor (h : Opened env s i task t) :
    t.world.investor = s.world.investor ∨
      ∃ opening, s.world.investor.begin (s.world.isRetired env) s.world.now task =
        .ok (t.world.investor, opening) := by
  cases h with
  | fault h => exact .inl rfl
  | done h =>
    rw [world_close]
    exact .inr ⟨_, h⟩
  | ask same h => exact .inl rfl

theorem Settled.world (h : Settled env s i task c t) : t.world = (s.world.settle env c).1 := by
  cases h with
  | fault h => rw [h]
  | ends h => rw [world_close, h]

theorem Settled.job (h : Settled env s i task c t) {stage : Stage}
    (here : s.jobs[i]? = some ⟨task, stage⟩) : ∃ stage', t.jobs[i]? = some ⟨task, stage'⟩ := by
  cases h with
  | fault h => exact ⟨stage, here⟩
  | @ends w result h =>
    rw [jobs_close]
    exact ⟨_, job_setStage (s := { s with world := w }) here _⟩

/-- A task whose reply has been dealt with is over, unless it was a fault. -/
theorem Settled.stage (h : Settled env s i task c t) {due : Option Nat}
    (here : s.jobs[i]? = some ⟨task, .asking c due⟩) :
    (∃ fault, (s.world.settle env c).2 = .error fault ∧ t.fault = some fault ∧
      t.jobs[i]? = some ⟨task, .asking c due⟩) ∨
    ∃ result, (s.world.settle env c).2 = .ok result ∧
      t.jobs[i]? = some ⟨task, .over result⟩ := by
  cases h with
  | fault h => exact .inl ⟨_, by rw [h], rfl, here⟩
  | @ends w result h =>
    refine .inr ⟨result, by rw [h], ?_⟩
    rw [jobs_close]
    exact job_setStage (s := { s with world := w }) here _

theorem Settled.job_of_ne {j : Nat} (h : Settled env s i task c t) (other : j ≠ i) :
    t.jobs[j]? = s.jobs[j]? := by
  cases h with
  | fault h => rfl
  | @ends w result h => rw [jobs_close, job_setStage_of_ne { s with world := w } other]

end Change

theorem World.callOf_eq_some {w : World σ} {task : Task} {c : Call} :
    w.callOf env task = some c ↔
      ∃ inv, w.investor.begin (w.isRetired env) w.now task = .ok (inv, .ask c) := by
  unfold World.callOf
  constructor
  · intro h
    split at h
    · next inv c' hb =>
      obtain rfl := Option.some.inj h
      exact ⟨inv, hb⟩
    · simp at h
  · rintro ⟨inv, hb⟩
    rw [hb]

/-- What a step of a task can be, and what it shows. -/
inductive Moves (env : Environment σ) (s : Concurrent σ) (i : Nat) :
    Option Event → Concurrent σ → Prop
  | nap {task drawn wake} (here : s.jobs[i]? = some ⟨task, .fresh⟩) :
      Moves env s i none
        ({ s with world := { s.world with drawn } }.setStage i (.napping wake))
  | queue {task stage r} (here : s.jobs[i]? = some ⟨task, stage⟩) (outside : stage.isOutside)
      (guarded : task.region = some r) (held : ((s.lock r).request i).holder ≠ some i) :
      Moves env s i none ((s.setLock r ((s.lock r).request i)).setStage i .queued)
  | enter {task t u} (enters : Enters s i task t) (opens : Opened env t i task u) :
      Moves env s i
        (some (.entered i task s.world.now (s.world.glance env) (s.world.callOf env task))) u
  | settle {task c due u} (here : s.jobs[i]? = some ⟨task, .asking c due⟩)
      (settles : Settled env s i task c u) :
      Moves env s i
        (some (.answered i s.world.now (env.wallClock s.world.now) c
          (env.exchange.reply c s.world.exchange).1)) u

/-- The other tasks stay where they are. -/
theorem Moves.job_of_ne {s t : Concurrent σ} {i j : Nat} {event : Option Event}
    (h : Moves env s i event t) (other : j ≠ i) : t.jobs[j]? = s.jobs[j]? := by
  cases h with
  | @nap task drawn wake here =>
    exact job_setStage_of_ne { s with world := { s.world with drawn } } other _
  | queue here outside guarded held => rw [job_setStage_of_ne _ other, jobs_setLock]
  | enter enters opens => rw [opens.job_of_ne other, enters.jobs_eq]
  | settle here settles => exact settles.job_of_ne other

/-- The task that moves remains the same task. -/
theorem Moves.job {s t : Concurrent σ} {i : Nat} {event : Option Event}
    (h : Moves env s i event t) :
    ∃ task stage stage', s.jobs[i]? = some ⟨task, stage⟩ ∧ t.jobs[i]? = some ⟨task, stage'⟩ := by
  cases h with
  | @nap task drawn wake here =>
    have after := job_setStage (s := { s with world := { s.world with drawn } }) here
    exact ⟨task, _, _, here, after (.napping wake)⟩
  | @queue task stage r here outside guarded held =>
    have here' : (s.setLock r ((s.lock r).request i)).jobs[i]? = some ⟨task, stage⟩ := by
      rw [jobs_setLock]
      exact here
    exact ⟨task, stage, .queued, here, job_setStage here' .queued⟩
  | @enter task u t enters opens =>
    obtain ⟨stage, here, -⟩ := enters.here
    have here' : u.jobs[i]? = some ⟨task, stage⟩ := by rw [enters.jobs_eq]; exact here
    obtain ⟨stage', after⟩ := opens.job here'
    exact ⟨task, stage, stage', here, after⟩
  | settle here settles =>
    obtain ⟨stage', after⟩ := settles.job here
    exact ⟨_, _, stage', here, after⟩

theorem moves_of_arrive {s : Concurrent σ} {i : Nat} {task : Task} {stage : Stage}
    (here : s.jobs[i]? = some ⟨task, stage⟩) (outside : stage.isOutside) :
    Moves env s i
      (if s.admits i task then
        some (.entered i task s.world.now (s.world.glance env) (s.world.callOf env task))
      else none) (s.arrive env i task) := by
  unfold admits arrive
  cases hr : task.region with
  | none => exact .enter (.unguarded here outside hr) (opened_openUp s i task)
  | some r =>
    simp only [lock_setLock, if_true, decide_eq_true_eq]
    by_cases first : ((s.lock r).request i).holder = some i
    · rw [if_pos first, if_pos first]
      exact .enter (.atOnce here outside hr first) (opened_openUp _ i task)
    · rw [if_neg first, if_neg first]
      exact .queue here outside hr first

/-- A step of a task is a move. -/
theorem moves_of_step? {s t : Concurrent σ} {i : Nat} (h : s.step? env i = some t) :
    s.fault = none ∧ Moves env s i (s.event? env i) t := by
  unfold step? at h
  unfold event?
  cases here : s.jobs[i]? with
  | none => simp [here] at h
  | some job =>
    obtain ⟨task, stage⟩ := job
    by_cases fault : s.fault.isSome
    · simp [here, fault] at h
    · have sound : s.fault = none := by simpa using fault
      refine ⟨sound, ?_⟩
      simp only [here, fault, Bool.false_eq_true, if_false, Option.bind_eq_bind,
        Option.bind_some] at h
      cases stage with
      | fresh =>
        cases hd : s.world.delayOf env task with
        | none =>
          obtain rfl : s.arrive env i task = t := by simpa [hd] using h
          simpa [hd] using moves_of_arrive here rfl
        | some delay =>
          simp only [hd, Option.some.injEq] at h
          rw [← h]
          simpa [hd] using (Moves.nap here : Moves env s i none _)
      | napping wake =>
        by_cases due : wake ≤ s.world.now
        · obtain rfl : s.arrive env i task = t := by simpa [due] using h
          exact moves_of_arrive here rfl
        · simp [due] at h
      | queued =>
        cases hr : task.region with
        | none => simp [hr] at h
        | some r =>
          by_cases turn : (s.lock r).holder = some i
          · obtain rfl : s.openUp env i task = t := by simpa [hr, turn] using h
            exact .enter (.called here hr turn) (opened_openUp s i task)
          · simp [hr, turn] at h
      | asking c due =>
        by_cases ready : due.any (· ≤ s.world.now)
        · obtain rfl : s.settle env i task c = t := by simpa [ready] using h
          exact .settle here (settled_settle s i task c)
        · simp [ready] at h
      | _ => simp at h

/-- A task takes a step, time passes, or the exchange does something on its own. -/
inductive Step (env : Environment σ) (stirs : σ → σ → Prop) :
    Concurrent σ → Option Event → Concurrent σ → Prop
  | move {s event t} (i : Nat) (h : s.step? env i = some t) (shows : s.event? env i = event) :
      Step env stirs s event t
  | wait {s} (now : Nat) (h : s.world.now ≤ now) :
      Step env stirs s none { s with world := { s.world with now } }
  | stir {s} (exchange : σ) (h : stirs s.world.exchange exchange) :
      Step env stirs s none { s with world := { s.world with exchange } }

/-- Steps in a row and their history, the latest event first. -/
inductive Steps (env : Environment σ) (stirs : σ → σ → Prop) (s : Concurrent σ) :
    List Event → Concurrent σ → Prop
  | refl : Steps env stirs s [] s
  | step {history event t u} (before : Steps env stirs s history t)
      (last : Step env stirs t event u) : Steps env stirs s (event.toList ++ history) u

theorem moves_of_step {s t : Concurrent σ} {i : Nat} {event : Option Event}
    (h : s.step? env i = some t) (shows : s.event? env i = event) :
    s.fault = none ∧ Moves env s i event t :=
  shows ▸ moves_of_step? h

/-- Tasks are started together, in any order and as late as it may be. -/
def Runs (env : Environment σ) (stirs : σ → σ → Prop) (w : World σ) (tasks : List Task)
    (history : List Event) (s : Concurrent σ) : Prop :=
  Steps env stirs (new w tasks) history s

theorem Steps.single {s t : Concurrent σ} {event : Option Event} (h : Step env stirs s event t) :
    Steps env stirs s event.toList t := by
  rw [← List.append_nil event.toList]
  exact .step .refl h

theorem Steps.trans {s t u : Concurrent σ} {earlier later : List Event}
    (h : Steps env stirs s earlier t) (k : Steps env stirs t later u) :
    Steps env stirs s (later ++ earlier) u := by
  induction k with
  | refl => exact h
  | step before last ih =>
    rw [List.append_assoc]
    exact ih.step last

/-- A history that has come to a certain event, and has gone on from there. -/
theorem Steps.split {s u : Concurrent σ} {later earlier : List Event} {event : Event}
    (h : Steps env stirs s (later ++ event :: earlier) u) :
    ∃ t t', Steps env stirs s earlier t ∧ Step env stirs t (some event) t' ∧
      Steps env stirs t' later u := by
  generalize whole : later ++ event :: earlier = history at h
  induction h generalizing later with
  | refl => simp at whole
  | @step history shown t u before last ih =>
    cases shown with
    | none =>
      obtain ⟨t₁, t₂, first, middle, rest⟩ := ih whole
      exact ⟨t₁, t₂, first, middle, rest.step last⟩
    | some e =>
      cases later with
      | nil =>
        obtain ⟨rfl, rfl⟩ := List.cons.inj whole
        exact ⟨t, u, before, last, .refl⟩
      | cons e' later =>
        have parts : e' :: (later ++ event :: earlier) = e :: history := whole
        obtain ⟨rfl, tails⟩ := List.cons.inj parts
        obtain ⟨t₁, t₂, first, middle, rest⟩ := ih tails
        exact ⟨t₁, t₂, first, middle, rest.step last⟩

/-- What a step does to the investor. -/
theorem investor_of_step {s t : Concurrent σ} {event : Option Event}
    (h : Step env stirs s event t) :
    match event with
    | none => t.world.investor = s.world.investor
    | some (.entered _ task now glance _) =>
      t.world.investor = s.world.investor ∨
        ∃ opening, s.world.investor.begin glance.retired now task =
          .ok (t.world.investor, opening)
    | some (.answered _ now at_ c r) =>
      t.world.investor = (s.world.investor.receive now at_ c r).1 := by
  cases h with
  | wait now h => rfl
  | stir exchange h => rfl
  | move i h shows =>
    cases (moves_of_step h shows).2 with
    | nap here => rfl
    | queue here outside guarded held =>
      simp only [world_setStage, world_setLock]
    | enter enters opens =>
      have opened := opens.investor
      rw [enters.world_eq] at opened
      exact opened
    | settle here settles =>
      simp only [settles.world]
      rfl

section Kept

variable {α : Type} {f : Investor → α}
  (begins : ∀ {inv inv' : Investor} {retired : Bool} {now : Nat} {task : Task}
    {opening : Investor.Opening},
    inv.begin retired now task = .ok (inv', opening) → f inv' = f inv)
  (receives : ∀ (inv : Investor) (now : Nat) (at_ : Timestamp) (c : Call) (r : c.Reply),
    f (inv.receive now at_ c r).1 = f inv)

include begins receives

/-- What neither the start of a task nor a reply changes, no step changes. -/
theorem kept_of_step {s t : Concurrent σ} {event : Option Event} (h : Step env stirs s event t) :
    f t.world.investor = f s.world.investor := by
  have change := investor_of_step h
  cases event with
  | none => exact congrArg f change
  | some event =>
    cases event with
    | entered job task now glance call =>
      obtain same | ⟨opening, hb⟩ := change
      · exact congrArg f same
      · exact begins hb
    | answered job now at_ c r =>
      have received : t.world.investor = (s.world.investor.receive now at_ c r).1 := change
      rw [received]
      exact receives s.world.investor now at_ c r

theorem kept_of_steps {s t : Concurrent σ} {history : List Event}
    (h : Steps env stirs s history t) : f t.world.investor = f s.world.investor := by
  induction h with
  | refl => rfl
  | step before last ih => exact (kept_of_step begins receives last).trans ih

end Kept

theorem move_of_step {s t : Concurrent σ} {event : Event}
    (h : Step env stirs s (some event) t) : s.fault = none ∧ ∃ i, Moves env s i (some event) t := by
  generalize whole : some event = shown at h
  cases h with
  | wait now h => cases whole
  | stir exchange h => cases whole
  | move i h shows =>
    obtain ⟨sound, moves⟩ := moves_of_step h shows
    exact ⟨sound, i, whole ▸ moves⟩

/-- The step in which a task goes on. -/
theorem enters_of_step {s t : Concurrent σ} {i : Nat} {task : Task} {now : Nat} {glance : Glance}
    {call : Option Call} (h : Step env stirs s (some (.entered i task now glance call)) t) :
    s.fault = none ∧ now = s.world.now ∧ glance = s.world.glance env ∧
      call = s.world.callOf env task ∧ ∃ u, Enters s i task u ∧ Opened env u i task t := by
  obtain ⟨sound, j, moves⟩ := move_of_step h
  cases moves with
  | enter enters opens => exact ⟨sound, rfl, rfl, rfl, _, enters, opens⟩

/-- The step in which a reply is dealt with. -/
theorem settles_of_step {s t : Concurrent σ} {i : Nat} {now : Nat} {at_ : Timestamp} {c : Call}
    {r : c.Reply} (h : Step env stirs s (some (.answered i now at_ c r)) t) :
    s.fault = none ∧ now = s.world.now ∧ at_ = env.wallClock s.world.now ∧
      r = (env.exchange.reply c s.world.exchange).1 ∧
      ∃ task due, s.jobs[i]? = some ⟨task, .asking c due⟩ ∧ Settled env s i task c t := by
  obtain ⟨sound, j, moves⟩ := move_of_step h
  cases moves with
  | settle here settles => exact ⟨sound, rfl, rfl, rfl, _, _, here, settles⟩

/-- A task that makes its call waits for the reply. -/
theorem asking_of_step {s t : Concurrent σ} {i : Nat} {task : Task} {now : Nat} {glance : Glance}
    {c : Call} (h : Step env stirs s (some (.entered i task now glance (some c))) t) :
    task = c.task ∧ ∃ due, t.jobs[i]? = some ⟨task, .asking c due⟩ := by
  obtain ⟨-, -, -, calls, u, enters, opens⟩ := enters_of_step h
  obtain ⟨inv, hb⟩ := World.callOf_eq_some.mp calls.symm
  obtain ⟨stage, here, -⟩ := enters.here
  rw [← enters.world_eq] at hb
  rw [← enters.jobs_eq] at here
  cases opens with
  | fault faults => rw [faults] at hb; cases hb
  | done ends => rw [ends] at hb; cases hb
  | @ask c' due same asks =>
    rw [asks] at hb
    cases hb
    exact ⟨same, due, job_setStage (s := { u with world := u.world.ask env c }) here _⟩

/-- A task waits for the reply to its call until the reply has come. -/
theorem asking_or_answered {s t : Concurrent σ} {history : List Event}
    (h : Steps env stirs s history t) {i : Nat} {task : Task} {c : Call} {due : Option Nat}
    (asking : s.jobs[i]? = some ⟨task, .asking c due⟩) :
    t.jobs[i]? = some ⟨task, .asking c due⟩ ∨
      ∃ now at_ r, .answered i now at_ c r ∈ history := by
  induction h with
  | refl => exact .inl asking
  | @step history event t u before last ih =>
    obtain here | ⟨now, at_, r, mem⟩ := ih
    · cases last with
      | wait now h => exact .inl here
      | stir exchange h => exact .inl here
      | move j h shows =>
        have moves := (moves_of_step h shows).2
        by_cases self : j = i
        · obtain rfl := self
          cases moves with
          | nap here' => rw [here] at here'; cases here'
          | queue here' outside guarded held => rw [here] at here'; cases here'; cases outside
          | enter enters opens =>
            obtain ⟨stage, here', waits⟩ := enters.here
            rw [here] at here'
            cases here'
            cases waits
          | settle here' settles =>
            rw [here] at here'
            cases here'
            exact .inr ⟨_, _, _, List.mem_append_left _ (List.mem_singleton_self _)⟩
        · left
          rw [moves.job_of_ne (Ne.symm self)]
          exact here
    · exact .inr ⟨now, at_, r, List.mem_append_right _ mem⟩

theorem job_of_steps {s t : Concurrent σ} {history : List Event}
    (h : Steps env stirs s history t) {i : Nat} {task : Task} {stage : Stage}
    (here : t.jobs[i]? = some ⟨task, stage⟩) : ∃ stage', s.jobs[i]? = some ⟨task, stage'⟩ := by
  induction h generalizing stage with
  | refl => exact ⟨stage, here⟩
  | @step history event t u before last ih =>
    cases last with
    | wait now h => exact ih here
    | stir exchange h => exact ih here
    | move j h shows =>
      have moves := (moves_of_step h shows).2
      by_cases self : i = j
      · obtain rfl := self
        obtain ⟨task', stage₁, stage₂, first, second⟩ := moves.job
        rw [here] at second
        cases second
        exact ih first
      · rw [moves.job_of_ne self] at here
        exact ih here

/-- A task of a run is the one that has been started under its number. -/
theorem task_of_runs {w : World σ} {tasks : List Task} {history : List Event} {s : Concurrent σ}
    (run : Runs env stirs w tasks history s) {i : Nat} {task : Task} {stage : Stage}
    (here : s.jobs[i]? = some ⟨task, stage⟩) : tasks[i]? = some task := by
  obtain ⟨stage', start⟩ := job_of_steps run here
  simp only [new, List.getElem?_map, Option.map_eq_some_iff, Job.mk.injEq] at start
  obtain ⟨task', found, rfl, -⟩ := start
  exact found

/-- When an event is shown. -/
def Event.moment : Event → Nat
  | .entered _ _ now _ _ => now
  | .answered _ now _ _ _ => now

theorem moment_of_step {s t : Concurrent σ} {event : Option Event}
    (h : Step env stirs s event t) :
    s.world.now ≤ t.world.now ∧ ∀ e ∈ event, e.moment = s.world.now := by
  cases h with
  | wait now h => exact ⟨h, by simp⟩
  | stir exchange h => exact ⟨Nat.le_refl _, by simp⟩
  | move i h shows =>
    cases (moves_of_step h shows).2 with
    | nap here => exact ⟨Nat.le_refl _, by simp⟩
    | queue here outside guarded held =>
      rw [world_setStage, world_setLock]
      exact ⟨Nat.le_refl _, by simp⟩
    | enter enters opens =>
      rw [opens.now_eq, enters.world_eq]
      refine ⟨Nat.le_refl _, ?_⟩
      rintro e ⟨rfl⟩
      rfl
    | settle here settles =>
      rw [settles.world]
      refine ⟨Nat.le_refl _, ?_⟩
      rintro e ⟨rfl⟩
      rfl

/-- The events of a run come in the order of time. -/
theorem moments_of_steps {s t : Concurrent σ} {history : List Event}
    (h : Steps env stirs s history t) :
    history.Pairwise (fun later earlier => earlier.moment ≤ later.moment) ∧
      ∀ e ∈ history, e.moment ≤ t.world.now := by
  induction h with
  | refl => simp
  | @step history event t u before last ih =>
    obtain ⟨sorted, past⟩ := ih
    obtain ⟨passes, shown⟩ := moment_of_step last
    cases event with
    | none => exact ⟨sorted, fun e he => Nat.le_trans (past e he) passes⟩
    | some e =>
      have now : e.moment = t.world.now := shown e rfl
      refine ⟨List.pairwise_cons.mpr ⟨?_, sorted⟩, ?_⟩
      · intro e' he
        rw [now]
        exact past e' he
      · intro e' he
        obtain rfl | he := List.mem_cons.mp he
        · rw [now]
          exact passes
        · exact Nat.le_trans (past e' he) passes

/-- What is next on a plan: a task takes a step, or time passes. -/
inductive Turn where
  | go (job : Nat)
  | pass (milliseconds : Nat)

/-- Carries out a plan. -/
def follow (env : Environment σ) : List Turn → Concurrent σ → Option (List Event × Concurrent σ)
  | [], s => some ([], s)
  | .go i :: plan, s => do
    let t ← s.step? env i
    let (later, u) ← follow env plan t
    return (later ++ (s.event? env i).toList, u)
  | .pass milliseconds :: plan, s =>
    follow env plan { s with world := { s.world with now := s.world.now + milliseconds } }

theorem steps_of_follow {plan : List Turn} {s u : Concurrent σ} {history : List Event}
    (h : follow env plan s = some (history, u)) : Steps env stirs s history u := by
  induction plan generalizing s history with
  | nil =>
    obtain ⟨rfl, rfl⟩ := Prod.mk.inj (Option.some.inj h)
    exact .refl
  | cons turn plan ih =>
    cases turn with
    | go i =>
      simp only [follow, Option.bind_eq_bind, Option.bind_eq_some_iff, pure, Option.some.injEq,
        Prod.exists] at h
      obtain ⟨t, ht, later, v, rest, hv⟩ := h
      obtain ⟨rfl, rfl⟩ := Prod.mk.inj hv
      exact (Steps.single (.move i ht rfl)).trans (ih rest)
    | pass milliseconds =>
      have waited : Steps env stirs s []
          { s with world := { s.world with now := s.world.now + milliseconds } } :=
        Steps.single (.wait _ (Nat.le_add_right _ milliseconds))
      have whole := waited.trans (ih h)
      rwa [List.append_nil] at whole

/-- Tasks of a new investor that are carried out after a plan. -/
def rehearse (env : Environment σ) (profile : InvestorProfile) (timing : Timing) (exchange : σ)
    (tasks : List Task) (plan : List Turn) : Option (List Event × Concurrent σ) :=
  match Investor.new "investor" profile .standard timing (.ofSeed 0) with
  | .error _ => none
  | .ok inv => follow env plan (new (.new inv exchange) tasks)

/-- What is found at the end of a rehearsal is found on a run. -/
theorem exists_run_of_rehearse (stirs : σ → σ → Prop) {profile : InvestorProfile}
    {timing : Timing} {exchange : σ} {tasks : List Task} {plan : List Turn}
    {P : List Event × Concurrent σ → Bool}
    (h : (rehearse env profile timing exchange tasks plan).any P) :
    ∃ inv history s, Investor.new "investor" profile .standard timing (.ofSeed 0) = .ok inv ∧
      Runs env stirs (.new inv exchange) tasks history s ∧ P (history, s) := by
  obtain ⟨⟨history, s⟩, found, holds⟩ := (Option.any_eq_true _ _).mp h
  unfold rehearse at found
  split at found
  · simp at found
  · next inv hi => exact ⟨inv, history, s, hi, steps_of_follow found, holds⟩

theorem steps_of_goOn (i steps : Nat) (s : Concurrent σ) :
    ∃ history, Steps env stirs s history (goOn env i steps s) := by
  induction steps generalizing s with
  | zero => exact ⟨[], .refl⟩
  | succ steps ih =>
    unfold goOn
    cases h : s.step? env i with
    | none => exact ⟨[], .refl⟩
    | some t =>
      obtain ⟨history, rest⟩ := ih t
      exact ⟨_, (Steps.single (.move i h rfl)).trans rest⟩

theorem steps_of_round (s : Concurrent σ) :
    ∃ history, Steps env stirs s history (s.round env) := by
  unfold round
  generalize List.range s.jobs.length = order
  induction order generalizing s with
  | nil => exact ⟨[], .refl⟩
  | cons i order ih =>
    obtain ⟨earlier, first⟩ : ∃ earlier, Steps env stirs s earlier (goOn env i mostSteps s) :=
      steps_of_goOn i mostSteps s
    obtain ⟨later, rest⟩ := ih (goOn env i mostSteps s)
    exact ⟨_, first.trans rest⟩

/-- A task that waits for a moment which has come can take a step. -/
theorem now_lt_moment {s : Concurrent σ} {job : Job} {moment : Nat} (sound : s.fault.isSome = false)
    (stuck : s.canStep env = false) (mem : job ∈ s.jobs)
    (waits : Stage.moment job.stage = some moment) : s.world.now < moment := by
  obtain ⟨i, inside, found⟩ := List.mem_iff_getElem.mp mem
  have here : s.jobs[i]? = some job := List.getElem?_eq_some_iff.mpr ⟨inside, found⟩
  have still : s.step? env i = none := by
    have all := List.any_eq_false.mp stuck i (List.mem_range.mpr inside)
    simpa using all
  by_contra past
  have come : moment ≤ s.world.now := Nat.le_of_not_lt past
  unfold step? at still
  simp only [here, sound, Bool.false_eq_true, if_false, Option.bind_eq_bind,
    Option.bind_some] at still
  cases hs : job.stage with
  | napping wake =>
    obtain rfl : wake = moment := by simpa [hs, Stage.moment] using waits
    simp [hs, come] at still
  | asking c due =>
    obtain rfl : due = some moment := by simpa [hs, Stage.moment] using waits
    simp [hs, come] at still
  | _ => simp [hs, Stage.moment] at waits

theorem steps_of_runFor (turns : Nat) (s : Concurrent σ) :
    ∃ history, Steps env stirs s history (runFor env turns s) := by
  induction turns generalizing s with
  | zero => exact ⟨[], .refl⟩
  | succ turns ih =>
    unfold runFor
    split
    · obtain ⟨earlier, first⟩ : ∃ earlier, Steps env stirs s earlier (s.round env) :=
        steps_of_round s
      obtain ⟨later, rest⟩ := ih (s.round env)
      exact ⟨_, first.trans rest⟩
    · next stuck =>
      split
      · exact ⟨[], .refl⟩
      · next sound =>
        split
        · exact ⟨[], .refl⟩
        · next moment hm =>
          obtain ⟨job, mem, waits⟩ := List.mem_filterMap.mp (List.min?_mem hm)
          have later := now_lt_moment (by simpa using sound) (by simpa using stuck) mem waits
          obtain ⟨history, rest⟩ := ih { s with world := { s.world with now := moment } }
          exact ⟨_, (Steps.single (.wait moment (Nat.le_of_lt later))).trans rest⟩

/-- Tasks that are run side by side make a run. -/
theorem runs_of_run (w : World σ) (tasks : List Task) :
    ∃ history, Runs env stirs w tasks history (run env w tasks) :=
  steps_of_runFor _ _

end Concurrent

end TradingLoad
