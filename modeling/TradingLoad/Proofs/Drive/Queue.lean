import TradingLoad.Proofs.Concurrent.Cursor
import TradingLoad.Proofs.Drive.Pacing

namespace TradingLoad

/-- A reply with trades among the investor's orders. -/
def isTradeReport (c : Call) (r : c.Reply) : Bool :=
  (snapshotOf c r).any InfoSnapshot.hasTradedOrders

/-- What may happen to an investor: a caller queues a task, a task opens or deals with a reply, a
composite is asked for. -/
inductive Investor.Use where
  | push (task : Task)
  | begin (retired : Bool) (now : Nat) (task : Task)
  | receive (now : Nat) (at_ : Timestamp) (c : Call) (r : c.Reply)
  | start
  | next (retired : Bool)

namespace Investor

def use (inv : Investor) : Use → Investor
  | .push task => inv.push task
  | .begin retired now task =>
    match inv.begin retired now task with
    | .ok (inv', _) => inv'
    | .error _ => inv
  | .receive now at_ c r => (inv.receive now at_ c r).1
  | .start => inv.start.1
  | .next retired => (inv.next retired).1

def useAll (inv : Investor) (uses : List Use) : Investor := uses.foldl use inv

/-- What a decision comes to, if it takes place. -/
def decision? (inv : Investor) (retired : Bool) (now : Nat) : Option Decision :=
  if retired || !inv.isPlacementDue now then none
  else (inv.situation >>= inv.trader.decide).toOption.map Prod.fst

/-- What is queued at a use. -/
def pushed (inv : Investor) : Use → List Task
  | .push task => [task]
  | .begin retired now .decision => (inv.decision? retired now).elim [] followUps
  | .receive _ _ c r => if isTradeReport c r then [.updateOrders] else []
  | _ => []

/-- All that is queued, the oldest first. -/
def pushes : Investor → List Use → List Task
  | _, [] => []
  | inv, u :: uses => inv.pushed u ++ pushes (inv.use u) uses

/-- The composite of a tick. -/
def handed? (inv : Investor) : Use → Option (Composite Task)
  | .next retired => (inv.next retired).2.toOption.join
  | _ => none

/-- The composites that are handed out for ticks, the first one first. -/
def handed : Investor → List Use → List (Composite Task)
  | _, [] => []
  | inv, u :: uses => (inv.handed? u).toList ++ handed (inv.use u) uses

end Investor

/-- What a composite does between its poll and its decision. -/
def Composite.queued (c : Composite Task) : List Task := c.tasks.tail.dropLast

namespace Investor

variable {inv : Investor}

theorem pending_decide {inv' : Investor} {retired : Bool} {now : Nat}
    (h : inv.decide retired now = .ok inv') :
    inv'.pending = inv.pending ++ (inv.decision? retired now).elim [] followUps := by
  unfold decision?
  unfold decide at h
  split at h
  · next idle =>
    obtain rfl := Except.ok.inj h
    rw [if_pos idle]
    exact (List.append_nil _).symm
  · next active =>
    rw [if_neg active]
    obtain ⟨view, sees, h⟩ := Checked.bind_eq_ok_iff.mp h
    obtain ⟨⟨d, trader⟩, decides, h⟩ := Checked.bind_eq_ok_iff.mp h
    have taken : (inv.situation >>= inv.trader.decide) = .ok (d, trader) := by
      rw [sees]
      exact decides
    rw [taken]
    obtain rfl := Except.ok.inj h
    show _ = inv.pending ++ followUps d
    unfold followUps
    cases taskOf d with
    | none => exact (List.append_nil _).symm
    | some task => simp [push]

theorem decision?_of_error {retired : Bool} {now : Nat} {fault : Fault}
    (h : inv.decide retired now = .error fault) : inv.decision? retired now = none := by
  unfold decision?
  unfold decide at h
  split at h
  · cases h
  · next active =>
    rw [if_neg active]
    cases taken : (inv.situation >>= inv.trader.decide) with
    | error fault => rfl
    | ok decided =>
      obtain ⟨view, sees, decides⟩ := Checked.bind_eq_ok_iff.mp taken
      rw [sees] at h
      simp only [bind, Except.bind, pure, Except.pure] at h decides
      rw [decides] at h
      cases h

theorem pending_of_begin {inv' : Investor} {retired : Bool} {now : Nat} {task : Task} {o : Opening}
    (h : inv.begin retired now task = .ok (inv', o)) :
    inv'.pending = inv.pending ++ inv.pushed (.begin retired now task) := by
  by_cases decides : task = .decision
  · obtain rfl := decides
    obtain ⟨decided, taken, h⟩ := Checked.bind_eq_ok_iff.mp h
    obtain ⟨rfl, -⟩ : decided = inv' ∧ _ := by simpa [pure, Except.pure] using h
    exact pending_decide taken
  · have nothing : inv.pushed (.begin retired now task) = [] := by
      cases task <;> first | rfl | exact absurd rfl decides
    rw [nothing, List.append_nil]
    rcases queued_begin h with same | ⟨decision, -⟩
    · exact same
    · exact absurd decision decides

theorem pushed_of_fault {retired : Bool} {now : Nat} {task : Task} {fault : Fault}
    (h : inv.begin retired now task = .error fault) :
    inv.pushed (.begin retired now task) = [] := by
  cases task with
  | decision =>
    have stuck : inv.decide retired now = .error fault := by
      cases decided : inv.decide retired now with
      | error fault' => simpa [begin, decided, bind, Except.bind] using h
      | ok inv' => simp [begin, decided, bind, Except.bind, pure, Except.pure] at h
    show (inv.decision? retired now).elim [] followUps = []
    rw [decision?_of_error stuck]
    rfl
  | _ => rfl

theorem pending_of_receive (inv : Investor) (now : Nat) (at_ : Timestamp) (c : Call)
    (r : c.Reply) :
    (inv.receive now at_ c r).1.pending =
      inv.pending ++ if isTradeReport c r then [.updateOrders] else [] := by
  rw [pending_receive]
  congr 1
  cases c with
  | info cursor => cases r <;> rfl
  | _ => cases r <;> rfl

/-- Only a composite that is handed out takes anything from the queue. -/
theorem pending_use {u : Use} (keeps : u ≠ .next false) :
    (inv.use u).pending = inv.pending ++ inv.pushed u := by
  cases u with
  | push task => rfl
  | begin retired now task =>
    cases h : inv.begin retired now task with
    | error fault =>
      have stays : inv.use (.begin retired now task) = inv := by simp only [use, h]
      rw [stays, pushed_of_fault h, List.append_nil]
    | ok begun =>
      have opened : inv.use (.begin retired now task) = begun.1 := by simp only [use, h]
      rw [opened]
      exact pending_of_begin h
  | receive now at_ c r => exact pending_of_receive inv now at_ c r
  | start =>
    have same : inv.start.1.pending = inv.pending := by
      cases again : inv.started with
      | true => simp [start, startUndecided, again]
      | false => rw [start_of_fresh again]
    exact same.trans (List.append_nil _).symm
  | next retired =>
    cases retired with
    | false => exact absurd rfl keeps
    | true => exact (List.append_nil _).symm

theorem pending_useAll {uses : List Use} (keeps : ∀ u ∈ uses, u ≠ .next false) :
    (inv.useAll uses).pending = inv.pending ++ inv.pushes uses := by
  induction uses generalizing inv with
  | nil => exact (List.append_nil _).symm
  | cons u uses ih =>
    have first : (inv.use u).pending = inv.pending ++ inv.pushed u :=
      pending_use (keeps u List.mem_cons_self)
    have rest := @ih (inv.use u) fun u' hu => keeps u' (List.mem_cons_of_mem u hu)
    show ((inv.use u).useAll uses).pending =
      inv.pending ++ (inv.pushed u ++ (inv.use u).pushes uses)
    rw [rest, first, List.append_assoc]

theorem handed_of_active (inv : Investor) :
    inv.handed? (.next false) =
      some ⟨2 + inv.pending.length, .info :: (inv.pending ++ [.decision])⟩ := by
  show (inv.next false).2.toOption.join = _
  rw [next_of_active]
  rfl

theorem not_handed {u : Use} (keeps : u ≠ .next false) : inv.handed? u = none := by
  cases u with
  | next retired =>
    cases retired with
    | false => exact absurd rfl keeps
    | true => rfl
  | _ => rfl

/-- What has been handed out, and what is queued, is what was pushed. -/
theorem handed_useAll (inv : Investor) (uses : List Use) :
    (inv.handed uses).flatMap Composite.queued ++ (inv.useAll uses).pending =
      inv.pending ++ inv.pushes uses := by
  induction uses generalizing inv with
  | nil => exact (List.append_nil _).symm
  | cons u uses ih =>
    have rest := ih (inv.use u)
    have moved : (inv.handed? u).toList.flatMap Composite.queued ++ (inv.use u).pending =
        inv.pending ++ inv.pushed u := by
      by_cases takes : u = .next false
      · obtain rfl := takes
        have emptied : (inv.use (.next false)).pending = [] := by
          show (inv.next false).1.pending = []
          rw [next_of_active]
        have middle : (inv.pending ++ [Task.decision]).dropLast = inv.pending :=
          List.dropLast_concat
        rw [handed_of_active, emptied]
        show ((inv.pending ++ [Task.decision]).dropLast ++ []) ++ [] = inv.pending ++ []
        rw [middle, List.append_nil]
      · rw [not_handed takes, pending_use takes]
        rfl
    show ((inv.handed? u).toList ++ (inv.use u).handed uses).flatMap Composite.queued ++
      ((inv.use u).useAll uses).pending = inv.pending ++ (inv.pushed u ++ (inv.use u).pushes uses)
    rw [List.flatMap_append, List.append_assoc, rest, ← List.append_assoc, moved,
      List.append_assoc]

end Investor

def Dealing.reportsTrades : Dealing → Bool
  | .replied _ c r => isTradeReport c r
  | _ => false

theorem Investor.followUps_cases (d : Decision) :
    Investor.followUps d = [] ∨
      ∃ task : Task, task.isOrder ∧ Investor.followUps d = [task, .updateOrders] := by
  cases d with
  | hold => exact .inl rfl
  | place side amount price motive => exact .inr ⟨_, rfl, rfl⟩
  | cancel id => exact .inr ⟨_, rfl, rfl⟩
  | reprice before after => exact .inl rfl

namespace World

variable {σ : Type} {env : Environment σ} {deadline : Deadline}

/-- The queue holds a reconciliation if trades are on record, and then at most an order task with
another one. -/
def IsQueued (record : List Dealing) (pending : List Task) : Prop :=
  ∃ decided : List Task,
    (decided = [] ∨ ∃ task : Task, task.isOrder ∧ decided = [task, .updateOrders]) ∧
    pending = (if record.any Dealing.reportsTrades then [.updateOrders] else []) ++ decided

theorem IsQueued.length_le {record : List Dealing} {pending : List Task}
    (h : IsQueued record pending) : pending.length ≤ 3 := by
  obtain ⟨decided, shape, rfl⟩ := h
  have reports : (if record.any Dealing.reportsTrades then [Task.updateOrders] else []).length ≤
      1 := by
    split <;> decide
  have follows : decided.length ≤ 2 := by
    rcases shape with rfl | ⟨task, -, rfl⟩
    · exact Nat.zero_le 2
    · exact Nat.le_refl 2
  rw [List.length_append]
  omega

/-- What is queued is done between a poll and a decision. -/
theorem IsQueued.undecided {record : List Dealing} {pending : List Task}
    (h : IsQueued record pending) : Task.decision ∉ pending ∧ pending.count .info = 0 := by
  obtain ⟨decided, shape, rfl⟩ := h
  have quiet : ∀ task ∈ (if record.any Dealing.reportsTrades then [Task.updateOrders] else []) ++
      decided, task = .updateOrders ∨ task.isOrder := by
    intro task ht
    rcases List.mem_append.mp ht with ht | ht
    · split at ht
      · exact .inl (List.mem_singleton.mp ht)
      · cases ht
    · rcases shape with rfl | ⟨order, isOrder, rfl⟩
      · cases ht
      · rcases List.mem_pair.mp ht with rfl | rfl
        · exact .inr isOrder
        · exact .inl rfl
  constructor
  · intro decides
    rcases quiet _ decides with h | h <;> cases h
  · apply List.count_eq_zero.mpr
    intro polls
    rcases quiet _ polls with h | h <;> cases h

/-- Between two worlds so many replies report trades, and a decision queues something. -/
structure Queues (w u : World (Recorded σ)) (reports : Nat) (decided : List Task) : Prop where
  record : u.exchange.record.countP Dealing.reportsTrades =
    w.exchange.record.countP Dealing.reportsTrades + reports
  pending : u.investor.pending =
    w.investor.pending ++ (List.replicate reports .updateOrders ++ decided)

variable {w v u : World (Recorded σ)}

theorem Queues.of_eq (record : u.exchange.record = w.exchange.record)
    (pending : u.investor.pending = w.investor.pending) : Queues w u 0 [] := by
  refine ⟨?_, ?_⟩
  · rw [record, Nat.add_zero]
  · rw [pending]
    exact (List.append_nil _).symm

theorem Queues.trans {m n : Nat} {decided : List Task} (h : Queues w v m [])
    (k : Queues v u n decided) : Queues w u (m + n) decided := by
  refine ⟨?_, ?_⟩
  · rw [k.record, h.record, Nat.add_assoc]
  · rw [k.pending, h.pending, List.append_nil, List.append_assoc,
      ← List.replicate_append_replicate, List.append_assoc]

theorem ComesTo.queues {task : Task} {ending : Checked Composite.Ending}
    (h : ComesTo env.recorded deadline w task u ending) :
    ∃ reports decided, reports ≤ [task].count .info ∧
      (decided = [] ∨ task = .decision ∧ ∃ d, decided = Investor.followUps d) ∧
      Queues w u reports decided := by
  cases h with
  | late waits | faults waits =>
    refine ⟨0, [], Nat.zero_le _, .inl rfl, .of_eq ?_ ?_⟩
    · rw [waits.exchange]
    · rw [waits.investor]
  | @skips v investor score waits h =>
    rcases Investor.queued_begin h with same | ⟨decides, d, queued⟩
    · refine ⟨0, [], Nat.zero_le _, .inl rfl, .of_eq ?_ ?_⟩
      · show v.exchange.record = _
        rw [waits.exchange]
      · show investor.pending = _
        rw [same, waits.investor]
    · refine ⟨0, Investor.followUps d, Nat.zero_le _, .inr ⟨decides, d, rfl⟩, ?_, ?_⟩
      · show v.exchange.record.countP _ = _
        rw [waits.exchange, Nat.add_zero]
      · show investor.pending = _
        rw [queued, waits.investor]
        rfl
  | @hangs v u c waits h asks =>
    refine ⟨0, [], Nat.zero_le _, .inl rfl, ?_, ?_⟩
    · rw [asks.exchange]
      show (Dealing.asked v.now c :: v.exchange.record).countP _ = _
      rw [List.countP_cons_of_neg Bool.false_ne_true, waits.exchange, Nat.add_zero]
    · rw [asks.investor]
      show v.investor.pending = _
      rw [waits.investor]
      exact (List.append_nil _).symm
  | @answered v u c latency waits h takes comes now =>
    have investor : u.investor = w.investor := comes.investor.trans waits.investor
    have record := record_settle waits takes comes now
    have pending := u.investor.pending_of_receive u.now (env.wallClock u.now) c
      (env.recorded.exchange.reply c u.exchange).1
    have own : task = c.task := (Investor.begin_eq_ask h).2
    cases reports : isTradeReport c (env.recorded.exchange.reply c u.exchange).1 with
    | false =>
      rw [reports] at pending
      refine ⟨0, [], Nat.zero_le _, .inl rfl, ?_, ?_⟩
      · rw [record, List.countP_cons_of_neg (by simp [Dealing.reportsTrades, reports]),
          List.countP_cons_of_neg Bool.false_ne_true, Nat.add_zero]
      · rw [← investor]
        exact pending
    | true =>
      have polls : task = .info := by
        rw [own]
        cases c with
        | info cursor => rfl
        | _ => cases reports
      rw [reports] at pending
      refine ⟨1, [], ?_, .inl rfl, ?_, ?_⟩
      · rw [polls]
        exact Nat.le_refl 1
      · rw [record, List.countP_cons_of_pos (by simp [Dealing.reportsTrades, reports]),
          List.countP_cons_of_neg Bool.false_ne_true]
      · rw [← investor]
        exact pending

/-- What the first tasks of a composite leave in the queue. -/
theorem queues_runTasks (env : Environment σ) (deadline : Deadline) {w : World (Recorded σ)}
    {r : Composite.Report} {tasks rest : List Task}
    (undecided : Task.decision ∉ tasks) (last : rest = [] ∨ rest = [.decision]) :
    ∃ reports decided, reports ≤ tasks.count .info ∧
      (decided = [] ∨ ∃ d, decided = Investor.followUps d) ∧
      Queues w (Composite.runTasks Task.name (runTask env.recorded deadline) r (tasks ++ rest) w).1
        reports decided := by
  -- by induction on the tasks before the decision, each of which queues updates at most
  induction tasks generalizing r w with
  | nil =>
    rcases last with rfl | rfl
    · exact ⟨0, [], Nat.le_refl 0, .inl rfl, .of_eq rfl rfl⟩
    · have comes := comesTo_runTask env.recorded deadline w .decision
      obtain ⟨reports, decided, few, decides, queues⟩ := comes.queues
      refine ⟨reports, decided, few, decides.imp_right And.right, ?_⟩
      rcases Composite.runTasks_cons Task.name (runTask env.recorded deadline) r .decision [] w
        with stops | ⟨r', goesOn⟩
      · rw [List.nil_append, stops]
        exact queues
      · rw [List.nil_append, goesOn]
        exact queues
  | cons task tasks ih =>
    have comes := comesTo_runTask env.recorded deadline w task
    obtain ⟨reports, decided, few, decides, first⟩ := comes.queues
    obtain rfl : decided = [] := by
      rcases decides with none | ⟨decision, -⟩
      · exact none
      · exact absurd (decision ▸ List.mem_cons_self) undecided
    have count : (task :: tasks).count .info = [task].count .info + tasks.count .info := by
      rw [← List.count_append]
      rfl
    rcases Composite.runTasks_cons Task.name (runTask env.recorded deadline) r task (tasks ++ rest)
      w with stops | ⟨r', goesOn⟩
    · refine ⟨reports, [], by omega, .inl rfl, ?_⟩
      rw [List.cons_append, stops]
      exact first
    · have later : Task.decision ∉ tasks := fun decision =>
        undecided (List.mem_cons_of_mem _ decision)
      obtain ⟨more, decided, few', decides', second⟩ := ih later (r := r')
        (w := (w.runTask env.recorded deadline task).1)
      refine ⟨reports + more, decided, by omega, decides', ?_⟩
      rw [List.cons_append, goesOn]
      exact first.trans second

/-- An investor with nothing in its queue has done the first tasks of a composite with one poll. -/
theorem isQueued_runComposite (env : Environment σ) (deadline : Deadline) {w : World σ}
    {c : Composite Task} {tasks : List Task}
    (empty : w.investor.pending = []) (shape : c.tasks = tasks ++ [.decision])
    (undecided : Task.decision ∉ tasks) (poll : tasks.count .info = 1) (n : Nat) :
    let begun := { c with tasks := c.tasks.take n }
    IsQueued (w.dealings env deadline begun)
      (w.runComposite env deadline begun).1.investor.pending := by
  intro begun
  have split : begun.tasks = tasks.take n ++ [Task.decision].take (n - tasks.length) := by
    show c.tasks.take n = _
    rw [shape, List.take_append]
  have last : [Task.decision].take (n - tasks.length) = [] ∨
      [Task.decision].take (n - tasks.length) = [.decision] := by
    cases n - tasks.length with
    | zero => exact .inl rfl
    | succ m => exact .inr (List.take_of_length_le (Nat.succ_le_succ (Nat.zero_le m)))
  have early : Task.decision ∉ tasks.take n := fun decision =>
    undecided (List.mem_of_mem_take decision)
  have once : (tasks.take n).count .info ≤ 1 := by
    rw [← poll]
    exact (List.take_sublist n tasks).count_le _
  obtain ⟨reports, decided, few, decides, record, pending⟩ :=
    queues_runTasks env deadline (w := w.recorded) (r := .empty) early last
  rw [← split] at record pending
  have plain : (w.runComposite env deadline begun).1 =
      (w.recorded.runComposite env.recorded deadline begun).1.plain :=
    congrArg Prod.fst (runComposite_plain env deadline w.recorded begun)
  have reported : (w.dealings env deadline begun).countP Dealing.reportsTrades = reports :=
    record.trans (Nat.zero_add reports)
  have queued : (w.runComposite env deadline begun).1.investor.pending =
      List.replicate reports .updateOrders ++ decided := by
    rw [plain]
    have before : w.recorded.investor.pending = [] := empty
    rw [before, List.nil_append] at pending
    exact pending
  -- with one poll there is one report at most
  have updates : List.replicate reports Task.updateOrders =
      if (w.dealings env deadline begun).any Dealing.reportsTrades then [.updateOrders]
      else [] := by
    by_cases none : reports = 0
    · rw [none] at reported ⊢
      have silent := List.countP_eq_zero.mp reported
      rw [if_neg (by simpa using silent)]
      rfl
    · obtain rfl : reports = 1 := by omega
      have positive : 0 < (w.dealings env deadline begun).countP Dealing.reportsTrades := by omega
      have loud := List.countP_pos_iff.mp positive
      rw [if_pos (List.any_eq_true.mpr loud)]
      rfl
  refine ⟨decided, ?_, ?_⟩
  · rcases decides with none | ⟨d, rfl⟩
    · exact .inl none
    · exact Investor.followUps_cases d
  · rw [queued, updates]

/-- The composites that an investor is given: first the one of its start, then one at each tick,
however the one before it has ended and whatever has passed since. -/
inductive Given (env : Environment σ) (w : World σ) : World σ → Composite Task → Prop
  | start {investor : Investor} {c : Composite Task} (h : w.investor.start = (investor, .ok c)) :
      Given env w { w with investor } c
  | next {b u : World σ} {c c' : Composite Task} {deadline : Deadline} {investor : Investor}
      (before : Given env w b c)
      (kept : u.investor = (b.runComposite env deadline c).1.investor)
      (h : u.investor.next (u.isRetired env) = (investor, .ok (some c'))) :
      Given env w { u with investor } c'

/-- A composite that is given is one poll and other tasks before a decision, and nothing is queued
when it begins. -/
theorem Given.shape {w b : World σ} {c : Composite Task} (h : Given env w b c)
    (empty : w.investor.pending = []) :
    b.investor.pending = [] ∧ ∃ tasks, c.tasks = tasks ++ [.decision] ∧
      Task.decision ∉ tasks ∧ tasks.count .info = 1 := by
  induction h with
  | start h =>
    obtain ⟨-, rfl, tasks⟩ := Investor.start_eq_ok h
    exact ⟨empty, Investor.startTasks, tasks, by decide, rfl⟩
  | @next b u c c' deadline investor before kept h ih =>
    -- the composite before has the shape, so it leaves neither polls nor decisions to this one
    obtain ⟨begun, tasks, shape, undecided, poll⟩ := ih
    obtain ⟨-, rfl, given⟩ := Investor.next_eq_ok h
    have queued : IsQueued (b.dealings env deadline c) u.investor.pending := by
      have whole := isQueued_runComposite env deadline begun shape undecided
        poll c.tasks.length
      rw [List.take_length] at whole
      rw [kept]
      exact whole
    obtain ⟨quiet, pollFree⟩ := queued.undecided
    refine ⟨rfl, .info :: u.investor.pending, given, ?_, ?_⟩
    · intro decision
      rcases List.mem_cons.mp decision with h | h
      · cases h
      · exact quiet h
    · rw [List.count_cons_self, pollFree]

/-- The composites in a row, when no time passes between them. -/
def inTurn (env : Environment σ) (w : World σ) : Nat → Option (World σ × Composite Task)
  | 0 =>
    match w.investor.start with
    | (investor, .ok c) => some ({ w with investor }, c)
    | _ => none
  | n + 1 =>
    match inTurn env w n with
    | some (b, c) =>
      let u := (b.runComposite env none c).1
      match u.investor.next (u.isRetired env) with
      | (investor, .ok (some c')) => some ({ u with investor }, c')
      | _ => none
    | none => none

theorem given_of_inTurn {w b : World σ} {c : Composite Task} {n : Nat}
    (h : w.inTurn env n = some (b, c)) : Given env w b c := by
  induction n generalizing b c with
  | zero =>
    unfold inTurn at h
    split at h
    · next started =>
      obtain ⟨rfl, rfl⟩ := Prod.mk.inj (Option.some.inj h)
      exact .start started
    · cases h
  | succ n ih =>
    unfold inTurn at h
    split at h
    · next before =>
      simp only at h
      split at h
      · next next =>
        obtain ⟨rfl, rfl⟩ := Prod.mk.inj (Option.some.inj h)
        exact .next (ih before) rfl next
      · cases h
    · cases h

/-- Tasks are handed out first in, first out, and each of them once. A composite has room for just
what is queued, and takes all of it; a retired investor is given none and keeps its queue. At any
moment of the composites that an investor is given, no more than three tasks are queued: a
reconciliation if trades were reported, and what a decision comes to. -/
theorem queue_fifo_and_short {account : String} {profile : InvestorProfile} {rewards : Rewards}
    {timing : Timing} {source : Random.Stream} {inv : Investor}
    (made : Investor.new account profile rewards timing source = .ok inv) :
    (∀ uses, (inv.handed uses).flatMap Composite.queued ++ (inv.useAll uses).pending =
        inv.pushes uses ∧
      (inv.useAll uses).next true = (inv.useAll uses, .ok none)) ∧
    (∀ before between, (before = [] ∨ ∃ earlier, before = earlier ++ [.next false]) →
      (∀ u ∈ between, u ≠ .next false) →
      let pushed := (inv.useAll before).pushes between
      let now := inv.useAll (before ++ between)
      now.next false = ({ now with pending := [] },
        .ok (some ⟨2 + pushed.length, .info :: (pushed ++ [.decision])⟩))) ∧
    ∀ {σ : Type} (env : Environment σ) (w b : World σ) (c : Composite Task),
      w.investor = inv → Given env w b c → ∀ deadline n,
      let begun := { c with tasks := c.tasks.take n }
      let queue := (b.runComposite env deadline begun).1.investor.pending
      IsQueued (b.dealings env deadline begun) queue ∧ queue.length ≤ 3 := by
  have empty : inv.pending = [] := (Investor.new_eq_ok made).2.1
  refine ⟨?_, ?_, ?_⟩
  · intro uses
    have conserved := inv.handed_useAll uses
    rw [empty, List.nil_append] at conserved
    exact ⟨conserved, Investor.next_of_retired _⟩
  · intro before between first keeps pushed now
    have begun : (inv.useAll before).pending = [] := by
      rcases first with rfl | ⟨earlier, rfl⟩
      · exact empty
      · show ((earlier ++ [Investor.Use.next false]).foldl Investor.use inv).pending = []
        rw [List.foldl_append]
        show ((inv.useAll earlier).next false).1.pending = []
        rw [Investor.next_of_active]
    have split : now = (inv.useAll before).useAll between := List.foldl_append
    have queued : now.pending = pushed := by
      rw [split, Investor.pending_useAll keeps, begun]
      rfl
    rw [Investor.next_of_active, queued]
  · intro σ env w b c here given deadline n
    obtain ⟨begun, tasks, shape, undecided, poll⟩ := given.shape (here ▸ empty)
    have queued := isQueued_runComposite env deadline begun shape
      undecided poll n
    exact ⟨queued, queued.length_le⟩

/-- Polls in every composite, orders as often as decided. -/
def eager : Timing :=
  { Timing.standard with pollingIntervalMs := 0, orderUpdateIntervalMs := 0, signupJitterMs := 0 }

/-- Three tasks of callers are handed out together, and the third composite of an investor that is
left to itself leaves three tasks in the queue. -/
theorem queue_of_three :
    ∃ inv, Investor.new "investor" ⟨500, 0, 1, 100, 1⟩ .standard eager (.ofSeed 0) = .ok inv ∧
      ((inv.useAll [.push .updateOrders, .push (.removeOrder 7), .next true, .push .top]).next
        false).2 = .ok (some ⟨5, [.info, .updateOrders, .removeOrder 7, .top, .decision]⟩) ∧
      ∃ b c, Given Course.scripted (.new inv Drive.tradesAtOnce) b c ∧
        (b.dealings Course.scripted none c).any Dealing.reportsTrades ∧
        (b.runComposite Course.scripted none c).1.investor.pending =
          [.updateOrders, .addOrder .sell 1 100, .updateOrders] := by
  have rehearsal : (Investor.new "investor" ⟨500, 0, 1, 100, 1⟩ .standard eager
      (.ofSeed 0)).toOption.any fun inv =>
        ((new inv Drive.tradesAtOnce).inTurn Course.scripted 2).any fun third =>
          decide ((third.1.runComposite Course.scripted none third.2).1.investor.pending =
            [.updateOrders, .addOrder .sell 1 100, .updateOrders]) := by decide
  obtain ⟨inv, made, rehearsal⟩ := exists_ok_of_any rehearsal
  obtain ⟨⟨b, c⟩, third, rehearsal⟩ := (Option.any_eq_true _ _).mp rehearsal
  obtain ⟨-, fifo, short⟩ := queue_fifo_and_short made
  have given := given_of_inTurn third
  have queue := of_decide_eq_true rehearsal
  have handed := fifo [] [.push .updateOrders, .push (.removeOrder 7), .next true, .push .top]
    (.inl rfl) (by simp)
  obtain ⟨⟨decided, shape, reported⟩, -⟩ := short Course.scripted _ b c rfl given none
    c.tasks.length
  rw [List.take_length] at reported
  refine ⟨inv, made, congrArg Prod.snd handed, b, c, given, ?_, queue⟩
  -- without a report nothing would stand before the order
  by_contra silent
  rw [if_neg silent, List.nil_append, queue] at reported
  rcases shape with rfl | ⟨task, -, rfl⟩ <;> cases reported

end World

end TradingLoad
