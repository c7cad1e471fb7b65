import TradingLoad.Composite
import Mathlib.Algebra.Ring.Nat

namespace TradingLoad

namespace Composite

variable {σ τ : Type}

/-- Offers tasks one after another, with the answer to each. A task that is refused leaves the
composite as it is. -/
def offerAll (c : Composite τ) : List τ → Composite τ × List (Except Failure Unit)
  | [] => (c, [])
  | task :: tasks =>
    match c.add task with
    | .ok d => ((d.offerAll tasks).1, .ok () :: (d.offerAll tasks).2)
    | .error failure => ((c.offerAll tasks).1, .error failure :: (c.offerAll tasks).2)

theorem offerAll_of_full {c : Composite τ} (full : c.capacity ≤ c.tasks.length) (offered : List τ) :
    c.offerAll offered =
      (c, List.replicate offered.length (.error (.compositeFull c.capacity))) := by
  induction offered with
  | nil => rfl
  | cons task offered ih =>
    have refused : c.add task = .error (.compositeFull c.capacity) :=
      if_neg (Nat.not_lt.mpr full)
    simp only [offerAll, refused, ih, List.length_cons, List.replicate_succ]

theorem offerAll_eq (c : Composite τ) (room : Nat) (fits : c.tasks.length + room = c.capacity)
    (offered : List τ) :
    c.offerAll offered =
      ({ c with tasks := c.tasks ++ offered.take room },
        List.replicate (min room offered.length) (.ok ()) ++
          List.replicate (offered.length - room) (.error (.compositeFull c.capacity))) := by
  induction offered generalizing c room with
  | nil => simp [offerAll]
  | cons task offered ih =>
    cases room with
    | zero =>
      have full : c.capacity ≤ c.tasks.length := by omega
      rw [offerAll_of_full full]
      simp
    | succ room =>
      have accepted : c.add task = .ok { c with tasks := c.tasks ++ [task] } :=
        if_pos (by omega)
      have rest := ih { c with tasks := c.tasks ++ [task] } room
        (by simp only [List.length_append, List.length_singleton]; omega)
      simp only [offerAll, accepted, rest, List.append_assoc, List.cons_append, List.nil_append,
        List.take_succ_cons, List.length_cons, Nat.add_min_add_right, List.replicate_succ,
        Nat.add_sub_add_right]

section

variable (act : σ → τ → σ × Except Failure Nat)

/-- Performs a task that ends by itself. -/
def ending (s : σ) (task : τ) : σ × Checked Ending :=
  ((act s task).1, .ok (.ended (act s task).2))

/-- Notes each task as it is started. -/
def noting (s : σ × List τ) (task : τ) : (σ × List τ) × Except Failure Nat :=
  (((act s.1 task).1, s.2 ++ [task]), (act s.1 task).2)

/-- Tasks that succeed with some scores, each begun in the state that the one before has left. -/
inductive Succeed : σ → List τ → List Nat → σ → Prop
  | nil {s : σ} : Succeed s [] [] s
  | cons {s t u : σ} {task : τ} {tasks : List τ} {score : Nat} {scores : List Nat}
      (first : act s task = (t, .ok score)) (rest : Succeed t tasks scores u) :
      Succeed s (task :: tasks) (score :: scores) u

/-- How a composite comes to its end: the tasks that it started, the state that they left, and what
is reported. -/
inductive Exit (name : τ → String) (s : σ) :
    List τ → List τ → σ → Checked (Option Report) → Prop
  | complete {tasks : List τ} {scores : List Nat} {t : σ}
      (succeed : Succeed act s tasks scores t) (fits : InWord64 scores.sum) :
      Exit name s tasks tasks t (.ok (some ⟨scores.sum, tasks.length, none⟩))
  | failed {before after : List τ} {task : τ} {scores : List Nat} {t u : σ} {failure : Failure}
      (succeed : Succeed act s before scores t) (fits : InWord64 scores.sum)
      (fails : act t task = (u, .error failure)) :
      Exit name s (before ++ task :: after) (before ++ [task]) u
        (.ok (some ⟨scores.sum, before.length, some (name task, failure)⟩))
  | overflows {before after : List τ} {task : τ} {scores : List Nat} {t u : σ} {score : Nat}
      (succeed : Succeed act s before scores t) (fits : InWord64 scores.sum)
      (last : act t task = (u, .ok score)) (exceeds : ¬ InWord64 (scores.sum + score)) :
      Exit name s (before ++ task :: after) (before ++ [task]) u (.error .addOverflow)

end

variable {act : σ → τ → σ × Except Failure Nat} {name : τ → String} {s t u : σ}
  {task : τ} {tasks started : List τ} {score : Nat} {scores : List Nat}
  {outcome : Checked (Option Report)}

theorem ending_eq_ended {result : Except Failure Nat} (h : act s task = (t, result)) :
    ending act s task = (t, .ok (.ended result)) := by
  simp only [ending, h]

theorem noting_eq {result : Except Failure Nat} (h : act s task = (t, result)) (started : List τ) :
    noting act (s, started) task = ((t, started ++ [task]), result) := by
  simp only [noting, h]

theorem Succeed.snoc (h : Succeed act s tasks scores t) (last : act t task = (u, .ok score)) :
    Succeed act s (tasks ++ [task]) (scores ++ [score]) u := by
  induction h with
  | nil => exact .cons last .nil
  | cons first _ ih => exact .cons first (ih last)

theorem Succeed.noting (h : Succeed act s tasks scores t) (started : List τ) :
    Succeed (noting act) (s, started) tasks scores (t, started ++ tasks) := by
  induction h generalizing started with
  | nil =>
    rw [List.append_nil]
    exact .nil
  | @cons s t u task tasks score scores first rest ih =>
    have further := ih (started ++ [task])
    rw [List.append_assoc, List.singleton_append] at further
    exact .cons (noting_eq first started) further

/-- Noting what is started changes neither the state nor the report. -/
theorem runTasks_noting (r : Report) (tasks started : List τ) (s : σ) :
    runTasks name (ending act) r tasks s =
      ((runTasks name (ending (noting act)) r tasks (s, started)).1.1,
        (runTasks name (ending (noting act)) r tasks (s, started)).2) := by
  induction tasks generalizing r s started with
  | nil => rfl
  | cons task tasks ih =>
    cases h : act s task with
    | mk t result =>
      have noted := noting_eq h started
      cases result with
      | error failure => simp only [runTasks, ending_eq_ended h, ending_eq_ended noted]
      | ok score =>
        simp only [runTasks, ending_eq_ended h, ending_eq_ended noted]
        cases Checked.addNat r.score score with
        | error fault => rfl
        | ok total => exact ih _ _ _

/-- Behind tasks that succeed a composite goes on with their scores in its report. -/
theorem runTasks_append (name : τ → String) (h : Succeed act s tasks scores t) (r : Report)
    (rest : List τ) (fits : InWord64 (r.score + scores.sum)) :
    runTasks name (ending act) r (tasks ++ rest) s =
      runTasks name (ending act)
        { r with score := r.score + scores.sum, completed := r.completed + tasks.length } rest
        t := by
  induction h generalizing r with
  | nil => rfl
  | @cons s t u task tasks score scores first _ ih =>
    have sum : r.score + (score :: scores).sum = r.score + score + scores.sum := by
      rw [List.sum_cons, Nat.add_assoc]
    have total : Checked.addNat r.score score = .ok (r.score + score) := by
      refine Checked.addNat_eq_ok_iff.mpr ⟨?_, rfl⟩
      unfold InWord64 at fits ⊢
      omega
    rw [sum] at fits ⊢
    rw [List.cons_append]
    simp only [runTasks, ending_eq_ended first, total]
    rw [ih _ fits]
    simp only [List.length_cons, Nat.add_assoc, Nat.add_comm 1]

/-- Tasks that succeed with more than a score can be are not reported on. -/
theorem runTasks_of_exceeds (h : Succeed act s tasks scores t) (r : Report) (rest : List τ)
    (fits : InWord64 r.score) (exceeds : ¬ InWord64 (r.score + scores.sum)) :
    (runTasks name (ending act) r (tasks ++ rest) s).2 = .error .addOverflow := by
  induction h generalizing r with
  | nil => exact absurd fits exceeds
  | @cons s t u task tasks score scores first _ ih =>
    rw [List.sum_cons, ← Nat.add_assoc] at exceeds
    rw [List.cons_append]
    simp only [runTasks, ending_eq_ended first]
    by_cases here : InWord64 (r.score + score)
    · have total : Checked.addNat r.score score = .ok (r.score + score) :=
        Checked.addNat_eq_ok_iff.mpr ⟨here, rfl⟩
      simp only [total]
      exact ih _ here exceeds
    · have total : Checked.addNat r.score score = .error .addOverflow := if_neg here
      simp only [total]

/-- A run behind tasks that have succeeded. -/
theorem run_append (name : τ → String) (capacity : Nat) (h : Succeed act s tasks scores t)
    (fits : InWord64 scores.sum) (rest : List τ) :
    (Composite.mk capacity (tasks ++ rest)).run name (ending (noting act)) (s, []) =
      runTasks name (ending (noting act)) ⟨scores.sum, tasks.length, none⟩ rest (t, tasks) := by
  have whole := runTasks_append name (h.noting []) .empty rest
    (by simpa only [Report.empty, Nat.zero_add] using fits)
  simpa only [run, Report.empty, Nat.zero_add, List.nil_append] using whole

theorem run_of_exit (capacity : Nat) (h : Exit act name s tasks started u outcome) :
    (Composite.mk capacity tasks).run name (ending (noting act)) (s, []) =
      ((u, started), outcome) := by
  cases h with
  | complete succeed fits =>
    have whole := run_append name capacity succeed fits []
    rwa [List.append_nil] at whole
  | @failed before after task scores t _ failure succeed fits fails =>
    rw [run_append name capacity succeed fits]
    simp only [runTasks, ending_eq_ended (noting_eq fails before)]
  | @overflows before after task scores t _ score succeed fits last exceeds =>
    have total : Checked.addNat scores.sum score = .error .addOverflow := if_neg exceeds
    rw [run_append name capacity succeed fits]
    simp only [runTasks, ending_eq_ended (noting_eq last before), total]

/-- Tasks come to their end in one of the three ways, when some of them have succeeded already. -/
theorem exists_exit_append (h : Succeed act s tasks scores t) (fits : InWord64 scores.sum)
    (name : τ → String) (rest : List τ) :
    ∃ started u outcome, Exit act name s (tasks ++ rest) started u outcome := by
  induction rest generalizing tasks scores t with
  | nil =>
    rw [List.append_nil]
    exact ⟨_, _, _, .complete h fits⟩
  | cons task rest ih =>
    cases here : act t task with
    | mk u result =>
      cases result with
      | error failure => exact ⟨_, _, _, .failed h fits here⟩
      | ok score =>
        by_cases further : InWord64 (scores.sum + score)
        · have sum : (scores ++ [score]).sum = scores.sum + score := by simp
          have exit := ih (h.snoc here) (sum ▸ further)
          rwa [List.append_assoc, List.singleton_append] at exit
        · exact ⟨_, _, _, .overflows h fits here further⟩

theorem run_eq_iff (c : Composite τ) :
    c.run name (ending (noting act)) (s, []) = ((u, started), outcome) ↔
      Exit act name s c.tasks started u outcome := by
  constructor
  · intro ran
    have start : Succeed act s [] [] s := .nil
    obtain ⟨started', u', outcome', exit⟩ := exists_exit_append start (by decide) name c.tasks
    have same := ran.symm.trans (run_of_exit c.capacity exit)
    simp only [Prod.mk.injEq] at same
    obtain ⟨⟨rfl, rfl⟩, rfl⟩ := same
    exact exit
  · exact run_of_exit c.capacity

theorem run_eq_iff_exists (c : Composite τ) :
    c.run name (ending act) s = (u, outcome) ↔
      ∃ started, Exit act name s c.tasks started u outcome := by
  have plain : c.run name (ending act) s =
      ((c.run name (ending (noting act)) (s, [])).1.1,
        (c.run name (ending (noting act)) (s, [])).2) := runTasks_noting .empty c.tasks [] s
  rw [plain]
  constructor
  · intro ran
    obtain ⟨rfl, rfl⟩ := Prod.mk.inj ran
    exact ⟨_, (run_eq_iff c).mp rfl⟩
  · rintro ⟨started, exit⟩
    rw [(run_eq_iff c).mpr exit]

theorem exists_exit (c : Composite τ) (ran : (c.run name (ending act) s).2 = outcome) :
    ∃ started u, Exit act name s c.tasks started u outcome := by
  obtain ⟨started, exit⟩ := (run_eq_iff_exists (u := (c.run name (ending act) s).1) c).mp rfl
  exact ⟨started, _, ran ▸ exit⟩

/-- There is no report just when tasks succeed from the first one on with more than a score can
be. -/
theorem run_eq_error_iff (c : Composite τ) {fault : Fault} :
    (c.run name (ending act) s).2 = .error fault ↔
      fault = .addOverflow ∧ ∃ first scores t,
        first <+: c.tasks ∧ Succeed act s first scores t ∧ ¬ InWord64 scores.sum := by
  obtain ⟨capacity, tasks⟩ := c
  constructor
  · intro ran
    obtain ⟨started, u, exit⟩ := exists_exit _ ran
    cases exit with
    | @overflows before after task scores t _ score succeed fits last exceeds =>
      refine ⟨rfl, before ++ [task], scores ++ [score], _, ?_, succeed.snoc last, ?_⟩
      · exact ⟨after, List.append_assoc before [task] after⟩
      · simpa using exceeds
  · rintro ⟨rfl, first, scores, t, ⟨rest, rfl⟩, succeed, exceeds⟩
    exact runTasks_of_exceeds succeed .empty rest (by decide)
      (by simpa only [Report.empty, Nat.zero_add] using exceeds)

/-- A report results in its score just when all tasks succeed. -/
theorem toResult_eq_ok_iff (c : Composite τ) {r : Report} {total : Nat}
    (ran : (c.run name (ending act) s).2 = .ok (some r)) :
    r.toResult = .ok total ↔ total = r.score ∧ ∃ scores t, Succeed act s c.tasks scores t := by
  constructor
  · intro result
    obtain ⟨capacity, tasks⟩ := c
    obtain ⟨started, u, exit⟩ := exists_exit _ ran
    cases exit with
    | complete succeed fits => exact ⟨(Except.ok.inj result).symm, _, _, succeed⟩
    | failed => exact nomatch result
  · rintro ⟨rfl, scores, t, succeed⟩
    by_cases fits : InWord64 scores.sum
    · have exit : Exit act name s c.tasks c.tasks t
          (.ok (some ⟨scores.sum, c.tasks.length, none⟩)) := .complete succeed fits
      rw [(run_eq_iff_exists c).mpr ⟨_, exit⟩] at ran
      obtain rfl := Option.some.inj (Except.ok.inj ran)
      rfl
    · have faulty : (c.run name (ending act) s).2 = .error .addOverflow :=
        (run_eq_error_iff c).mpr ⟨rfl, c.tasks, scores, t, List.prefix_refl _, succeed, fits⟩
      exact nomatch faulty.symm.trans ran

end Composite

end TradingLoad
