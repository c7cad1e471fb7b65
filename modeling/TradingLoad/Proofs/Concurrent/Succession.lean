import TradingLoad.Proofs.Concurrent.Moves

namespace TradingLoad

namespace World

variable {σ : Type} {env : Environment σ} {w u : World σ} {result : Except Failure Nat}

/-- Runs tasks one after another, whether they fail or not; none unless all of them come to an
end. -/
def runInTurn (env : Environment σ) :
    World σ → List Task → Option (World σ × List (Except Failure Nat))
  | w, [] => some (w, [])
  | w, task :: tasks =>
    match w.runTask env none task with
    | (w, .ok (.ended result)) => (runInTurn env w tasks).map fun r => (r.1, result :: r.2)
    | _ => none

/-- A call that has been dealt with: its reply has come, at the end of its latency. -/
theorem perform_eq_ended {c : Call} (h : w.perform env none c = (u, .ok (.ended result))) :
    ∃ latency, env.exchange.latency (w.ask env c).exchange c = some latency ∧
      settle env { w.ask env c with now := max w.now (w.now + latency) } c =
        (u, .ok result) := by
  unfold perform at h
  cases hl : env.exchange.latency (w.ask env c).exchange c with
  | none => simp [hl, waitUntil] at h
  | some latency =>
    refine ⟨latency, rfl, ?_⟩
    simp only [hl, Option.map_some, waitUntil_none] at h
    have moment : (w.ask env c).now = w.now := rfl
    rw [moment] at h
    cases hs : settle env { w.ask env c with now := max w.now (w.now + latency) } c with
    | mk u' outcome =>
      rw [hs] at h
      obtain ⟨rfl, same⟩ := Prod.mk.inj h
      cases outcome with
      | error fault => cases same
      | ok result' =>
        cases same
        rfl

/-- A task that has come to its end has done so without a call, or its call has been dealt with. -/
theorem runTask_eq_ended {task : Task} (h : w.runTask env none task = (u, .ok (.ended result))) :
    ∃ v, w.spread env none task = (v, true) ∧
      ((∃ investor score, v.investor.begin (v.isRetired env) v.now task =
          .ok (investor, .done score) ∧ u = { v with investor } ∧ result = .ok score) ∨
        ∃ c, v.investor.begin (v.isRetired env) v.now task = .ok (v.investor, .ask c) ∧
          v.perform env none c = (u, .ok (.ended result))) := by
  unfold runTask at h
  split at h
  · cases h
  · next v spread =>
    refine ⟨v, spread, ?_⟩
    split at h
    · cases h
    · next investor score hb =>
      cases h
      exact .inl ⟨investor, score, hb, rfl, rfl⟩
    · next investor c hb =>
      obtain ⟨rfl, -⟩ := Investor.begin_eq_ask hb
      exact .inr ⟨c, hb, h⟩

end World

namespace Concurrent

variable {σ : Type} {env : Environment σ} {stirs : σ → σ → Prop} {s : Concurrent σ} {i : Nat}
  {task : Task}

/-- There has been no fault, and nobody holds a region or waits for one. -/
structure Idle (s : Concurrent σ) : Prop where
  sound : s.fault = none
  free : ∀ r, s.lock r = .free

/-- There has been no fault, and nobody but the task holds a region or waits for one. -/
structure Holds (s : Concurrent σ) (i : Nat) (task : Task) : Prop where
  sound : s.fault = none
  locks : ∀ r, s.lock r = if task.region = some r then ⟨some i, []⟩ else .free

theorem idle_new (w : World σ) (tasks : List Task) : (new w tasks).Idle := by
  refine ⟨rfl, ?_⟩
  intro r
  cases r <;> rfl

theorem Holds.close (h : s.Holds i task) (result : Except Failure Nat) :
    (s.close i task result).Idle := by
  refine ⟨?_, ?_⟩
  · rw [fault_close]
    exact h.sound
  · intro r
    rw [lock_close, h.locks]
    split <;> rfl

/-- A task that goes on while nobody else does has its region at once. -/
theorem Idle.arrive (h : s.Idle) (env : Environment σ) (i : Nat) (task : Task) :
    ∃ u : Concurrent σ, s.arrive env i task = u.openUp env i task ∧ u.world = s.world ∧
      u.jobs = s.jobs ∧ u.Holds i task := by
  unfold Concurrent.arrive
  cases hr : task.region with
  | none =>
    refine ⟨s, rfl, rfl, rfl, h.sound, ?_⟩
    intro r
    rw [hr, h.free]
    rfl
  | some r =>
    have taken : (s.lock r).request i = ⟨some i, []⟩ := by
      rw [h.free]
      rfl
    refine ⟨s.setLock r ⟨some i, []⟩, ?_, world_setLock _ _ _, jobs_setLock _ _ _, ?_, ?_⟩
    · simp only [taken, lock_setLock, if_true]
    · rw [fault_setLock]
      exact h.sound
    · intro r'
      rw [lock_setLock, hr, h.free]
      simp only [Option.some.injEq]

theorem step?_of_napping {wake : Nat} (here : s.jobs[i]? = some ⟨task, .napping wake⟩)
    (sound : s.fault = none) (past : wake ≤ s.world.now) :
    s.step? env i = some (s.arrive env i task) := by
  simp [step?, here, sound, past]

theorem step?_of_asking {c : Call} {moment : Nat}
    (here : s.jobs[i]? = some ⟨task, .asking c (some moment)⟩) (sound : s.fault = none)
    (past : moment ≤ s.world.now) : s.step? env i = some (s.settle env i task c) := by
  simp [step?, here, sound, past]

/-- The delay of a task passes. -/
theorem steps_of_spread (here : s.jobs[i]? = some ⟨task, .fresh⟩) (idle : s.Idle) {w : World σ}
    (h : s.world.spread env none task = (w, true)) :
    ∃ u stage, Steps env stirs s [] u ∧ u.world = w ∧ u.jobs = s.jobs.set i ⟨task, stage⟩ ∧
      u.Idle ∧ u.step? env i = some (u.arrive env i task) := by
  unfold World.spread at h
  cases hd : s.world.delayOf env task with
  | none =>
    obtain ⟨rfl, -⟩ : s.world = w ∧ True := by simpa [hd] using h
    refine ⟨s, .fresh, .refl, rfl, ?_, idle, ?_⟩
    · obtain ⟨inside, found⟩ := List.getElem?_eq_some_iff.mp here
      rw [← found, List.set_getElem_self]
    · simp [step?, here, idle.sound, hd]
  | some delay =>
    have later : World.waitUntil none (some (s.world.now + delay))
        { s.world with drawn := s.world.drawn + 1 } = (w, true) := by simpa [hd] using h
    rw [World.waitUntil_none] at later
    obtain ⟨rfl, -⟩ := Prod.mk.inj later
    have drawing : s.step? env i = some ({ s with world := { s.world with
        drawn := s.world.drawn + 1 } }.setStage i (.napping (s.world.now + delay))) := by
      simp [step?, here, idle.sound, hd]
    have quiet : s.event? env i = none := by simp [event?, here, hd]
    have napping := jobs_setStage (s := { s with world := { s.world with
      drawn := s.world.drawn + 1 } }) here (.napping (s.world.now + delay))
    refine ⟨_, .napping (s.world.now + delay), (Steps.single (.move i drawing quiet)).step
      (.wait (max s.world.now (s.world.now + delay)) (Nat.le_max_left _ _)), rfl, napping,
      ⟨idle.sound, ?_⟩, ?_⟩
    · intro r
      exact idle.free r
    · have here' := job_setStage (s := { s with world := { s.world with
        drawn := s.world.drawn + 1 } }) here (.napping (s.world.now + delay))
      exact step?_of_napping here' idle.sound (Nat.le_max_right _ _)

/-- The reply to the call of a task comes, and is dealt with. -/
theorem steps_of_reply {c : Call} {moment : Nat}
    (here : s.jobs[i]? = some ⟨task, .asking c (some moment)⟩) (holds : s.Holds i task)
    {w : World σ} {result : Except Failure Nat}
    (h : World.settle env { s.world with now := max s.world.now moment } c = (w, .ok result)) :
    ∃ history t, Steps env stirs s history t ∧ t.world = w ∧
      t.jobs = s.jobs.set i ⟨task, .over result⟩ ∧ t.Idle := by
  have waited : Steps env stirs s []
      { s with world := { s.world with now := max s.world.now moment } } :=
    Steps.single (.wait _ (Nat.le_max_left _ _))
  have settled : Concurrent.settle env
      { s with world := { s.world with now := max s.world.now moment } } i task c =
        Concurrent.close { s with world := w } i task result := by
    simp only [Concurrent.settle, h]
  have goes : step? env { s with world := { s.world with now := max s.world.now moment } } i =
      some (Concurrent.close { s with world := w } i task result) := by
    rw [← settled]
    exact step?_of_asking (s := { s with world := { s.world with now := max s.world.now moment } })
      here holds.sound (Nat.le_max_right _ _)
  have held : Holds { s with world := w } i task := ⟨holds.sound, holds.locks⟩
  refine ⟨_, _, waited.step (.move i goes rfl), world_close _ _ _ _, ?_, held.close result⟩
  rw [jobs_close]
  exact jobs_setStage (s := { s with world := w }) here _

/-- A task comes to its end while no other one runs. -/
theorem steps_of_runTask (here : s.jobs[i]? = some ⟨task, .fresh⟩) (idle : s.Idle) {w : World σ}
    {result : Except Failure Nat}
    (h : s.world.runTask env none task = (w, .ok (.ended result))) :
    ∃ history t, Steps env stirs s history t ∧ t.world = w ∧
      t.jobs = s.jobs.set i ⟨task, .over result⟩ ∧ t.Idle := by
  obtain ⟨inside, -⟩ := List.getElem?_eq_some_iff.mp here
  obtain ⟨v, spread, ends⟩ := World.runTask_eq_ended h
  obtain ⟨u, stage, delayed, world, jobs, idle', goes⟩ :
      ∃ u stage, Steps env stirs s [] u ∧ u.world = v ∧ u.jobs = s.jobs.set i ⟨task, stage⟩ ∧
        u.Idle ∧ u.step? env i = some (u.arrive env i task) := steps_of_spread here idle spread
  obtain ⟨e, arrives, same, jobs', holds⟩ := idle'.arrive env i task
  have entered : Steps env stirs s _ (e.openUp env i task) :=
    delayed.step (.move i (arrives ▸ goes) rfl)
  have here' : e.jobs[i]? = some ⟨task, stage⟩ := by
    rw [jobs', jobs, List.getElem?_set_self inside]
  have whole : ∀ job, e.jobs.set i job = s.jobs.set i job := by
    intro job
    rw [jobs', jobs, List.set_set]
  rw [← world, ← same] at ends
  obtain ⟨investor, score, hb, rfl, rfl⟩ | ⟨c, hb, performed⟩ := ends
  · have opened : e.openUp env i task =
        Concurrent.close { e with world := { e.world with investor } } i task (.ok score) := by
      simp [openUp, hb]
    have held : Holds { e with world := { e.world with investor } } i task :=
      ⟨holds.sound, holds.locks⟩
    rw [opened] at entered
    refine ⟨_, _, entered, world_close _ _ _ _, ?_, held.close (.ok score)⟩
    rw [jobs_close, ← whole]
    exact jobs_setStage (s := { e with world := { e.world with investor } }) here' _
  · obtain ⟨latency, hl, settled⟩ := World.perform_eq_ended performed
    have opened : e.openUp env i task =
        Concurrent.setStage { e with world := e.world.ask env c } i
          (.asking c (some (e.world.now + latency))) := by
      simp only [openUp, hb]
      rw [hl]
      rfl
    have asking := job_setStage (s := { e with world := e.world.ask env c }) here'
      (.asking c (some (e.world.now + latency)))
    have held : Holds (Concurrent.setStage { e with world := e.world.ask env c } i
        (.asking c (some (e.world.now + latency)))) i task := ⟨holds.sound, holds.locks⟩
    rw [opened] at entered
    obtain ⟨later, t, rest, reached, jobs'', idle''⟩ :
        ∃ later t, Steps env stirs (Concurrent.setStage { e with world := e.world.ask env c } i
            (.asking c (some (e.world.now + latency)))) later t ∧ t.world = w ∧ _ ∧ t.Idle :=
      steps_of_reply asking held settled
    refine ⟨_, t, entered.trans rest, reached, ?_, idle''⟩
    rw [jobs'', ← whole, jobs_setStage (s := { e with world := e.world.ask env c }) here',
      List.set_set]

/-- Tasks that have not begun run one after another, and others are over already. -/
theorem steps_of_runInTurn {u : World σ} {tasks : List Task} {results : List (Except Failure Nat)}
    (idle : s.Idle) {others : List Job} (jobs : s.jobs = others ++ tasks.map (⟨·, .fresh⟩))
    (h : s.world.runInTurn env tasks = some (u, results)) :
    ∃ history t, Steps env stirs s history t ∧ t.world = u ∧
      t.jobs = others ++ tasks.zipWith (fun task result => ⟨task, .over result⟩) results ∧
      t.Idle := by
  induction tasks generalizing s others results with
  | nil =>
    cases h
    exact ⟨[], s, .refl, rfl, jobs, idle⟩
  | cons task tasks ih =>
    unfold World.runInTurn at h
    split at h
    · next v result hv =>
      obtain ⟨⟨u', results'⟩, rest, same⟩ := Option.map_eq_some_iff.mp h
      cases same
      have here : s.jobs[others.length]? = some ⟨task, .fresh⟩ := by
        rw [jobs, List.getElem?_append_right (Nat.le_refl _), Nat.sub_self]
        rfl
      obtain ⟨earlier, t, first, rfl, jobs', idle'⟩ :
          ∃ history t, Steps env stirs s history t ∧ t.world = v ∧ _ ∧ t.Idle :=
        steps_of_runTask here idle hv
      have next : t.jobs = (others ++ [⟨task, .over result⟩]) ++ tasks.map (⟨·, .fresh⟩) := by
        rw [jobs', jobs, List.set_append_right _ _ (Nat.le_refl _), Nat.sub_self]
        simp
      obtain ⟨later, t', last, reached, jobs'', idle''⟩ := ih idle' next rest
      refine ⟨_, t', first.trans last, reached, ?_, idle''⟩
      rw [jobs'', List.append_assoc]
      rfl
    · cases h

/-- Tasks one after another are a run of tasks side by side. -/
theorem runs_of_runInTurn {w u : World σ} {tasks : List Task}
    {results : List (Except Failure Nat)} (h : w.runInTurn env tasks = some (u, results)) :
    ∃ history s, Runs env stirs w tasks history s ∧ s.world = u ∧
      s.jobs = tasks.zipWith (fun task result => ⟨task, .over result⟩) results ∧ s.Idle := by
  have fresh : (new w tasks).jobs = [] ++ tasks.map (⟨·, .fresh⟩) := rfl
  exact steps_of_runInTurn (idle_new w tasks) fresh h

end Concurrent

end TradingLoad
