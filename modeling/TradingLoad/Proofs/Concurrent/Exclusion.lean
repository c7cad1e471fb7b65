import TradingLoad.Proofs.Concurrent.Moves

namespace TradingLoad

/-- The call that a task waits for. -/
def Job.call? (job : Job) : Option Call :=
  match job.stage with
  | .asking c _ => some c
  | _ => none

namespace Lock

theorem holder_request {l : Lock} {i j : Nat} (h : l.holder = some j) :
    (l.request i).holder = some j := by
  unfold request
  rw [h]

end Lock

namespace Concurrent

variable {σ : Type} {env : Environment σ} {stirs : σ → σ → Prop} {s t : Concurrent σ} {i j : Nat}
  {task : Task} {r : Region}

/-- The calls under way. -/
def inFlight (s : Concurrent σ) : List Call := s.jobs.filterMap Job.call?

namespace Enters

theorem holder (h : Enters s i task t) (guarded : task.region = some r) :
    (t.lock r).holder = some i := by
  cases h with
  | unguarded here outside free => simp [free] at guarded
  | atOnce here outside guarded' first =>
    obtain rfl := Option.some.inj (guarded'.symm.trans guarded)
    rw [lock_setLock, if_pos rfl]
    exact first
  | called here guarded' turn =>
    obtain rfl := Option.some.inj (guarded'.symm.trans guarded)
    exact turn

theorem lock_of_ne (h : Enters s i task t) (other : task.region ≠ some r) :
    t.lock r = s.lock r := by
  cases h with
  | unguarded => rfl
  | atOnce here outside guarded =>
    rw [lock_setLock, if_neg]
    intro same
    exact other (same ▸ guarded)
  | called => rfl

/-- Nobody else holds the region with which a task goes on. -/
theorem eq_of_holder (h : Enters s i task t) (guarded : task.region = some r)
    (held : (s.lock r).holder = some j) : j = i := by
  cases h with
  | unguarded here outside free => simp [free] at guarded
  | atOnce here outside guarded' first =>
    obtain rfl := Option.some.inj (guarded'.symm.trans guarded)
    rw [Lock.holder_request held] at first
    exact Option.some.inj first
  | called here guarded' turn =>
    obtain rfl := Option.some.inj (guarded'.symm.trans guarded)
    exact Option.some.inj (held.symm.trans turn)

end Enters

/-- A task that waits for a reply has made its own call, and holds its region. -/
def Guarded (s : Concurrent σ) : Prop :=
  ∀ i task c due, s.jobs[i]? = some ⟨task, .asking c due⟩ →
    task = c.task ∧ ∀ r, task.region = some r → (s.lock r).holder = some i

theorem guarded_new (w : World σ) (tasks : List Task) : (new w tasks).Guarded := by
  intro i task c due here
  have fresh : (tasks[i]?).map (fun t => (⟨t, .fresh⟩ : Job)) = some ⟨task, .asking c due⟩ := by
    simpa only [new, List.getElem?_map] using here
  obtain ⟨t, -, ht⟩ := Option.map_eq_some_iff.mp fresh
  cases ht

/-- When a task goes on, no other task with the same region waits for a reply. -/
theorem Guarded.alone (hg : s.Guarded) (h : Enters s i task t) {task' : Task} {c : Call}
    {due : Option Nat} (asking : s.jobs[j]? = some ⟨task', .asking c due⟩)
    (guarded : task.region = some r) : task'.region ≠ some r := by
  intro same
  have held := (hg j task' c due asking).2 r same
  obtain rfl := h.eq_of_holder guarded held
  obtain ⟨stage, here, outside⟩ := h.here
  rw [asking] at here
  cases here
  simp [Stage.hasEntered] at outside

theorem Guarded.enter (hg : s.Guarded) (h : Enters s i task t) : t.Guarded := by
  intro j task' c due asking
  rw [h.jobs_eq] at asking
  obtain ⟨own, held⟩ := hg j task' c due asking
  refine ⟨own, ?_⟩
  intro r guarded'
  by_cases guarded : task.region = some r
  · exact absurd guarded' (hg.alone h asking guarded)
  · rw [h.lock_of_ne guarded]
    exact held r guarded'

/-- Another task has moved, and every other lock is as it was. -/
theorem Guarded.of_other (hg : s.Guarded)
    (others : ∀ j, j ≠ i → t.jobs[j]? = s.jobs[j]?)
    (locks : ∀ r j, j ≠ i → (s.lock r).holder = some j → (t.lock r).holder = some j)
    (self : ∀ task c due, t.jobs[i]? = some ⟨task, .asking c due⟩ →
      task = c.task ∧ ∀ r, task.region = some r → (t.lock r).holder = some i) : t.Guarded := by
  intro j task c due asking
  by_cases same : j = i
  · obtain rfl := same
    exact self task c due asking
  · rw [others j same] at asking
    obtain ⟨own, held⟩ := hg j task c due asking
    exact ⟨own, fun r guarded => locks r j same (held r guarded)⟩

/-- A task that is over hands on the region that it has held, and no other one. -/
theorem Guarded.close (hg : s.Guarded) {stage : Stage} (here : s.jobs[i]? = some ⟨task, stage⟩)
    (holds : ∀ r, task.region = some r → (s.lock r).holder = some i)
    (result : Except Failure Nat) : (s.close i task result).Guarded := by
  apply hg.of_other (i := i)
  · intro j other
    rw [jobs_close, job_setStage_of_ne s other]
  · intro r j other held
    rw [lock_close]
    by_cases guarded : task.region = some r
    · have own := held.symm.trans (holds r guarded)
      exact absurd (Option.some.inj own) other
    · rw [if_neg guarded]
      exact held
  · intro task' c due asking
    rw [jobs_close, job_setStage here] at asking
    cases asking

theorem Guarded.opened {u : Concurrent σ} (hg : s.Guarded) (h : Enters s i task t)
    (opens : Opened env t i task u) : u.Guarded := by
  have entered := hg.enter h
  obtain ⟨stage, here, -⟩ := h.here
  rw [← h.jobs_eq] at here
  cases opens with
  | fault => exact entered
  | @done investor score =>
    have moved : Guarded { t with world := { t.world with investor } } := entered
    exact moved.close here (fun r guarded => h.holder guarded) (.ok score)
  | @ask c due same hb =>
    apply entered.of_other (i := i)
    · intro j other
      exact job_setStage_of_ne { t with world := t.world.ask env c } other _
    · intro r j other held
      exact held
    · intro task' c' due' asking
      rw [job_setStage (s := { t with world := t.world.ask env c }) here] at asking
      cases asking
      exact ⟨same, fun r guarded => h.holder guarded⟩

theorem Guarded.settled (hg : s.Guarded) {c : Call} {due : Option Nat}
    (here : s.jobs[i]? = some ⟨task, .asking c due⟩) (settles : Settled env s i task c t) :
    t.Guarded := by
  cases settles with
  | fault => exact hg
  | @ends w result h =>
    have moved : Guarded { s with world := w } := hg
    exact moved.close here (hg i task c due here).2 result

theorem guarded_step {event : Option Event} (h : Step env stirs s event t) (hg : s.Guarded) :
    t.Guarded := by
  cases h with
  | wait now h => exact hg
  | stir exchange h => exact hg
  | move i h shows =>
    have moves := (moves_of_step h shows).2
    have others : ∀ j, j ≠ i → t.jobs[j]? = s.jobs[j]? := fun j other => moves.job_of_ne other
    cases moves with
    | @nap task drawn wake here =>
      apply hg.of_other others
      · intro r j other held
        exact held
      · intro task' c due asking
        rw [job_setStage (s := { s with world := { s.world with drawn } }) here] at asking
        cases asking
    | @queue task stage r here outside guarded held =>
      apply hg.of_other others
      · intro r' j other held'
        rw [lock_setStage, lock_setLock]
        by_cases same : r = r'
        · obtain rfl := same
          rw [if_pos rfl]
          exact Lock.holder_request held'
        · rw [if_neg same]
          exact held'
      · intro task' c due asking
        rw [← jobs_setLock s r ((s.lock r).request i)] at here
        rw [job_setStage here] at asking
        cases asking
    | enter enters opens => exact hg.opened enters opens
    | settle here settles => exact hg.settled here settles

theorem guarded_of_runs {w : World σ} {tasks : List Task} {history : List Event}
    (run : Runs env stirs w tasks history s) : s.Guarded := by
  induction run with
  | refl => exact guarded_new w tasks
  | step before last ih => exact guarded_step last ih

theorem countP_le_one {α : Type} {p : α → Bool} {xs : List α}
    (single : ∀ (i j : Nat) (x y : α), xs[i]? = some x → xs[j]? = some y → p x → p y → i = j) :
    xs.countP p ≤ 1 := by
  induction xs with
  | nil => simp
  | cons x xs ih =>
    have rest : xs.countP p ≤ 1 := by
      apply ih
      intro i j y z hy hz py pz
      exact Nat.succ.inj (single (i + 1) (j + 1) y z hy hz py pz)
    by_cases px : p x
    · have none : xs.countP p = 0 := by
        apply List.countP_eq_zero.mpr
        intro y mem py
        obtain ⟨j, inside, found⟩ := List.mem_iff_getElem.mp mem
        have hy : xs[j]? = some y := List.getElem?_eq_some_iff.mpr ⟨inside, found⟩
        exact absurd (single 0 (j + 1) x y rfl hy px py) (by omega)
      rw [List.countP_cons_of_pos px, none]
    · rw [List.countP_cons_of_neg px]
      exact rest

/-- At most one call of a region is under way. -/
theorem Guarded.countP_inFlight_le (hg : s.Guarded) (r : Region) :
    s.inFlight.countP (fun c => c.task.region = some r) ≤ 1 := by
  unfold inFlight
  rw [List.countP_filterMap]
  apply countP_le_one
  have holds : ∀ i job, s.jobs[i]? = some job →
      ((job.call?.map fun c => decide (c.task.region = some r)).getD false) = true →
      (s.lock r).holder = some i := by
    intro i job here calls
    obtain ⟨task, stage⟩ := job
    cases stage with
    | asking c due =>
      obtain ⟨own, held⟩ := hg i task c due here
      apply held r
      rw [own]
      simpa [Job.call?] using calls
    | _ => simp [Job.call?] at calls
  intro i j x y hx hy px py
  have first := holds i x hx px
  have second := holds j y hy py
  exact Option.some.inj (first.symm.trans second)

end Concurrent

end TradingLoad
