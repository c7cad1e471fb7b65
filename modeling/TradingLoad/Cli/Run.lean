import TradingLoad.Cli.Arguments
import TradingLoad.Cli.Log
import TradingLoad.Config.Load
import TradingLoad.Roster
import TradingLoad.Schedule.Drive

namespace TradingLoad.Cli

open LogLine (text quoted number truth)

/-- What a run finds around it. -/
structure Surroundings (ν : Type) where
  environment : Variables
  /-- The content of the file that sets variables, if it is there. -/
  envFile : Option String
  /-- The file of settings that the arguments name, if it is there. -/
  configFile : Option TextFile
  random : Random.Stream
  network : Http.Network ν
  networkState : ν
  /-- The civil time. -/
  now : Timestamp
  /-- What the clock that measures time reads when the run starts, in whole seconds. -/
  clock : Nat := 0

/-- How a run ends. -/
inductive Ending where
  | success
  /-- Something that was tried first, and the failure that came up. -/
  | failed (attempt : String) (failure : Failure)
  | usage (stop : Stop)
  | broken (fault : Fault)

namespace Ending

def exitCode : Ending → Nat
  | success => 0
  | failed _ _ => 1
  | usage .help => 0
  | usage .version => 0
  | usage (.usage _) => 2
  | broken _ => 101

/-- Lines after the first one have the indentation of the first one. -/
def indented (s : String) : String :=
  String.ofList (s.toList.flatMap fun c => if c = '\n' then "\n    ".toList else [c])

/-- What is said about the end where the log cannot tell it. -/
def complaint : Ending → String
  | success => ""
  | failed attempt failure =>
    "Error: " ++ attempt ++ "\n\nCaused by:\n    " ++ indented failure.message ++ "\n"
  | usage (.usage problem) => "error: " ++ problem ++ "\n"
  | usage _ => ""
  | broken fault => fault.message ++ "\n"

end Ending

structure RunResult where
  log : List LogLine
  ending : Ending

def greeting (config : Option String) : List LogLine :=
  [⟨.info, "Starting exchange bench", []⟩,
    ⟨.info, match config with
      | some path => "Configuration file: " ++ path
      | none => "No configuration file, using environment", []⟩]

def configured (c : BenchConfig) (investors : Nat) : LogLine :=
  ⟨.info, "benchmark configured",
    [text "target" c.target.baseUrl, number "investors" investors,
      number "duration_secs" c.timing.benchmarkTimeSecs]⟩

/-- A failed task of an investor. -/
def incident (account : String) (task : String) (failure : Failure) : LogLine :=
  let fields := [text "bank_id" account, quoted "task" task]
  if failure.isConsistencyViolation then
    ⟨.error, "consistency violation: " ++ failure.message, fields⟩
  else ⟨.warn, "task failed: " ++ failure.message, fields⟩

def finished (r : RunReport) : LogLine :=
  ⟨.info, "investor finished",
    [text "bank_id" r.account, number "score" r.score, number "completed" r.completed,
      number "errors" r.errors, number "violations" r.violations, truth "retired" r.retired]⟩

def total (score : Nat) : LogLine := ⟨.info, "benchmark finished", [number "score" score]⟩

/-- The settings of a run. The environment gets what the file of variables sets first. -/
def loadSettings {ν : Type} (a : Arguments) (s : Surroundings ν) : Except ConfigError BenchConfig :=
  let environment := match s.envFile with
    | some content => s.environment.withFile content
    | none => s.environment
  match a.config with
  | some _ => BenchConfig.load s.configFile environment
  | none => BenchConfig.ofEnvironment environment

/-- The settings with what the arguments say over them. -/
def override (a : Arguments) (c : BenchConfig) : BenchConfig :=
  { c with
    target := { c.target with baseUrl := a.target.getD c.target.baseUrl }
    timing :=
      { c.timing with benchmarkTimeSecs := a.durationSecs.getD c.timing.benchmarkTimeSecs } }

/-- The end of a run that starts at a reading of the clock, in milliseconds from then on. The clock
counts seconds in a signed number of 64 bits. -/
def deadlineOf (clock : Nat) (t : Timing) : Checked Nat :=
  if clock + t.benchmarkTimeSecs < 0x8000000000000000 then .ok (t.benchmarkTimeSecs * 1000)
  else .error .instantOverflow

/-- Drives one investor. -/
def driveOne {ν : Type} (s : Surroundings ν) (c : BenchConfig) (deadline : Nat) (r : Recruit) :
    Checked RunReport :=
  let env : Environment (Http.Session × ν) :=
    { exchange := Http.exchange s.network s.now
      wallClock := fun _ => s.now
      delays := fun n => (s.random.key.word n).toNat }
  (Drive.run env c.timing.tickIntervalMs deadline
    (World.new r.investor (r.session, s.networkState))).2

/-- The lines on one investor while it runs, and the one after. -/
def linesOf : Checked RunReport → List LogLine × LogLine
  | .error fault => ([], ⟨.error, "investor task panicked: " ++ fault.message, []⟩)
  | .ok r => (r.incidents.map fun i => incident r.account i.1 i.2, finished r)

def scoreOf : Checked RunReport → Nat
  | .error _ => 0
  | .ok r => r.score

/-- The lines on all investors, and the sum of their scores. -/
def conclude (log : List LogLine) (reports : List (Checked RunReport)) : RunResult :=
  let lines := reports.map linesOf
  let log := log ++ lines.flatMap Prod.fst ++ lines.map Prod.snd
  match (reports.map scoreOf).foldlM Checked.addNat 0 with
  | .error fault => ⟨log, .broken fault⟩
  | .ok score => ⟨log ++ [total score], .success⟩

/-- A run with settings. -/
def runWith {ν : Type} (a : Arguments) (s : Surroundings ν) (c : BenchConfig) : RunResult :=
  let log := greeting a.config
  let c := override a c
  match Roster.build c (a.seed.map UInt64.ofNat) s.random with
  | .error fault => ⟨log, .broken fault⟩
  | .ok (.error failure) => ⟨log, .failed "failed to build exchange client" failure⟩
  | .ok (.ok roster) =>
    let log := log ++ [configured c roster.length]
    match deadlineOf s.clock c.timing with
    | .error fault => ⟨log, .broken fault⟩
    | .ok deadline => conclude log (roster.map (driveOne s c deadline))

/-- The arguments, of which the environment can name the target. -/
def readArguments (words : List String) (environment : Variables) : Except Stop Arguments :=
  (Arguments.read words).map fun a =>
    { a with target := a.target <|> environment.lookup "BENCH_TARGET_URL" }

/-- The level from which on lines are shown. -/
def levelOf (a : Arguments) (c : BenchConfig) : LogLevel :=
  .ofWord (a.logLevel.getD c.settings.logLevel)

/-- A run with arguments. -/
def run {ν : Type} (a : Arguments) (s : Surroundings ν) : RunResult :=
  match loadSettings a s with
  | .error e => ⟨[], .failed "failed to load configuration" e.toFailure⟩
  | .ok c =>
    let r := runWith a s c
    { r with log := r.log.filter (LogLine.isShown (levelOf a c)) }

end TradingLoad.Cli
