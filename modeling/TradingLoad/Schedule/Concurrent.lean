import TradingLoad.Schedule.World

namespace TradingLoad

/-- Who holds a region, and who waits for it, the first comer first. -/
structure Lock where
  holder : Option Nat
  waiting : List Nat
  deriving DecidableEq, Repr

namespace Lock

def free : Lock := ⟨none, []⟩

/-- Takes the region if it is free, else waits for it. -/
def request (l : Lock) (job : Nat) : Lock :=
  match l.holder with
  | none => { l with holder := some job }
  | some _ => { l with waiting := l.waiting ++ [job] }

/-- Hands the region to the first that waits for it. -/
def release (l : Lock) : Lock :=
  match l.waiting with
  | [] => free
  | job :: rest => ⟨some job, rest⟩

end Lock

/-- How far a task has come. -/
inductive Stage where
  | fresh
  /-- In its random delay, until a moment. -/
  | napping (wake : Nat)
  /-- It has asked for its region. -/
  | queued
  /-- It has made a call, which takes until a moment. -/
  | asking (call : Call) (due : Option Nat)
  | over (result : Except Failure Nat)

structure Job where
  task : Task
  stage : Stage

/-- Tasks of one investor side by side. A task runs until it has to wait, and between two waits
nothing else runs. -/
structure Concurrent (σ : Type) where
  world : World σ
  jobs : List Job
  trading : Lock
  polling : Lock
  /-- A fault has ended the run. -/
  fault : Option Fault

namespace Concurrent

variable {σ : Type}

def new (world : World σ) (tasks : List Task) : Concurrent σ :=
  { world, jobs := tasks.map (⟨·, .fresh⟩), trading := .free, polling := .free, fault := none }

def lock (s : Concurrent σ) : Region → Lock
  | .trading => s.trading
  | .polling => s.polling

def setLock (s : Concurrent σ) (r : Region) (l : Lock) : Concurrent σ :=
  match r with
  | .trading => { s with trading := l }
  | .polling => { s with polling := l }

def setStage (s : Concurrent σ) (i : Nat) (stage : Stage) : Concurrent σ :=
  { s with jobs := s.jobs.modify i ({ · with stage }) }

/-- The end of a task: its region, if it has one, goes to the next task. -/
def close (s : Concurrent σ) (i : Nat) (task : Task) (result : Except Failure Nat) : Concurrent σ :=
  let s := s.setStage i (.over result)
  match task.region with
  | none => s
  | some r => s.setLock r (s.lock r).release

/-- The task holds its region: it is over, or makes its call. -/
def openUp (env : Environment σ) (s : Concurrent σ) (i : Nat) (task : Task) : Concurrent σ :=
  match s.world.investor.begin (s.world.isRetired env) s.world.now task with
  | .error fault => { s with fault := some fault }
  | .ok (investor, .done score) =>
    { s with world := { s.world with investor } }.close i task (.ok score)
  | .ok (investor, .ask c) =>
    let world := { s.world with investor }.ask env c
    let due := (env.exchange.latency world.exchange c).map (world.now + ·)
    { s with world }.setStage i (.asking c due)

/-- The task asks for its region, and goes on at once if it needs none or the region is free. -/
def arrive (env : Environment σ) (s : Concurrent σ) (i : Nat) (task : Task) : Concurrent σ :=
  match task.region with
  | none => s.openUp env i task
  | some r =>
    let s := s.setLock r ((s.lock r).request i)
    if (s.lock r).holder = some i then s.openUp env i task else s.setStage i .queued

/-- The reply to the call of a task has come. -/
def settle (env : Environment σ) (s : Concurrent σ) (i : Nat) (task : Task) (c : Call) :
    Concurrent σ :=
  match s.world.settle env c with
  | (world, .error fault) => { s with world, fault := some fault }
  | (world, .ok result) => { s with world }.close i task result

/-- One step of a task; none while it has to wait or when it is over. -/
def step? (env : Environment σ) (s : Concurrent σ) (i : Nat) : Option (Concurrent σ) := do
  let job ← s.jobs[i]?
  if s.fault.isSome then none
  else
    match job.stage with
    | .fresh =>
      match s.world.delayOf env job.task with
      | none => some (s.arrive env i job.task)
      | some delay =>
        some ({ s with world := { s.world with drawn := s.world.drawn + 1 } }.setStage i
          (.napping (s.world.now + delay)))
    | .napping wake => if wake ≤ s.world.now then some (s.arrive env i job.task) else none
    | .queued =>
      match job.task.region with
      | none => none
      | some r => if (s.lock r).holder = some i then some (s.openUp env i job.task) else none
    | .asking c due =>
      if due.any (· ≤ s.world.now) then some (s.settle env i job.task c) else none
    | .over _ => none

/-- A task takes no more steps than this. -/
def mostSteps : Nat := 4

/-- A task goes on until it has to wait. -/
def goOn (env : Environment σ) (i : Nat) : Nat → Concurrent σ → Concurrent σ
  | 0, s => s
  | steps + 1, s =>
    match s.step? env i with
    | none => s
    | some s => goOn env i steps s

/-- Every task goes on in turn. -/
def round (env : Environment σ) (s : Concurrent σ) : Concurrent σ :=
  (List.range s.jobs.length).foldl (fun s i => goOn env i mostSteps s) s

def canStep (env : Environment σ) (s : Concurrent σ) : Bool :=
  (List.range s.jobs.length).any fun i => (s.step? env i).isSome

/-- The moment at which a task stops waiting, as far as time alone decides it. -/
def Stage.moment : Stage → Option Nat
  | .napping wake => some wake
  | .asking _ due => due
  | _ => none

/-- The first moment at which a task stops waiting. -/
def nextMoment (s : Concurrent σ) : Option Nat :=
  (s.jobs.filterMap fun job => Stage.moment job.stage).min?

/-- Rounds, and the passing of time when no task can go on; so many of them at most. -/
def runFor (env : Environment σ) : Nat → Concurrent σ → Concurrent σ
  | 0, s => s
  | turns + 1, s =>
    if s.canStep env then runFor env turns (s.round env)
    else if s.fault.isSome then s
    else
      match s.nextMoment with
      | none => s
      | some moment => runFor env turns { s with world := { s.world with now := moment } }

/-- Runs tasks side by side until all are over or wait for ever. Every turn but the passing of time
takes a step, and no two turns in a row are the passing of time. -/
def run (env : Environment σ) (w : World σ) (tasks : List Task) : Concurrent σ :=
  runFor env (2 * mostSteps * tasks.length + 2) (new w tasks)

/-- The results of the tasks, as far as they are over. -/
def results (s : Concurrent σ) : List (Except Failure Nat) :=
  s.jobs.filterMap fun job =>
    match job.stage with
    | .over result => some result
    | _ => none

end Concurrent

end TradingLoad
