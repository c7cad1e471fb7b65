import TradingLoad.Number.Scan

namespace TradingLoad.Cli

structure Arguments where
  /-- The path to a file of settings. -/
  config : Option String
  logLevel : Option String
  /-- The exchange, over what the settings say. -/
  target : Option String
  /-- The length of the run, over what the settings say. -/
  durationSecs : Option Nat
  /-- A seed for the investors. -/
  seed : Option Nat
  deriving DecidableEq, Repr

/-- Why there are no arguments to run with. -/
inductive Stop where
  /-- The user wants to be told about the program, not to run it. -/
  | help
  | version
  | usage (problem : String)
  deriving DecidableEq, Repr

inductive Switch where
  | config
  | logLevel
  | target
  | durationSecs
  | seed
  deriving DecidableEq, Repr

namespace Switch

def all : List Switch := [config, logLevel, target, durationSecs, seed]

def word : Switch → String
  | config => "config"
  | logLevel => "log-level"
  | target => "target"
  | durationSecs => "duration-secs"
  | seed => "seed"

def describe : Switch → String
  | config => "-c, --config <PATH>: file of settings; without one only the environment is read"
  | logLevel => "--log-level <LEVEL>: trace, debug, info, warn or error"
  | target => "--target <URL>: base of the exchange [environment: BENCH_TARGET_URL]"
  | durationSecs => "--duration-secs <N>: length of the run"
  | seed => "--seed <N>: seed of the investors"

end Switch

/-- What a word among the arguments is. -/
inductive Word where
  | switch (s : Switch)
  | assignment (s : Switch) (value : String)
  | help
  | version
  /-- No options come after it. -/
  | rest
  | other
  deriving DecidableEq, Repr

namespace Word

/-- A word without the two dashes at its start. -/
def ofLong (cs : List Char) : Word :=
  let name := String.ofList (cs.takeWhile (· ≠ '='))
  match Switch.all.find? (·.word = name), cs.dropWhile (· ≠ '=') with
  | some s, [] => switch s
  | some s, _ :: value => assignment s (String.ofList value)
  | none, [] => if name = "help" then help else if name = "version" then version else other
  | none, _ => other

/-- A word without the dash at its start. -/
def ofShort : List Char → Word
  | 'h' :: _ => help
  | 'V' :: _ => version
  | ['c'] => switch .config
  | 'c' :: '=' :: value => assignment .config (String.ofList value)
  | 'c' :: value => assignment .config (String.ofList value)
  | _ => other

def ofString (s : String) : Word :=
  match s.toList with
  | ['-', '-'] => rest
  | '-' :: '-' :: cs => ofLong cs
  | '-' :: cs => ofShort cs
  | _ => other

/-- A word can be the value of an option unless it looks like an option. -/
def isValue (s : String) : Bool :=
  match s.toList with
  | '-' :: _ :: _ => false
  | _ => true

end Word

namespace Arguments

def none : Arguments := ⟨.none, .none, .none, .none, .none⟩

def isGiven (a : Arguments) : Switch → Bool
  | .config => a.config.isSome
  | .logLevel => a.logLevel.isSome
  | .target => a.target.isSome
  | .durationSecs => a.durationSecs.isSome
  | .seed => a.seed.isSome

def number (s : Switch) (value : String) : Except Stop Nat :=
  match Scan.word? 64 value.toList with
  | some n => .ok n
  | .none => .error (.usage ("invalid value for --" ++ s.word ++ ": " ++ value))

/-- The arguments with one more option. -/
def give (a : Arguments) (s : Switch) (value : String) : Except Stop Arguments :=
  if a.isGiven s then .error (.usage ("--" ++ s.word ++ " is given more than once"))
  else
    match s with
    | .config => .ok { a with config := some value }
    | .logLevel => .ok { a with logLevel := some value }
    | .target => .ok { a with target := some value }
    | .durationSecs => (number s value).map fun n => { a with durationSecs := some n }
    | .seed => (number s value).map fun n => { a with seed := some n }

def unexpected (word : String) : Stop := .usage ("unexpected argument: " ++ word)

/-- The arguments with those in a list of words. -/
def readFrom (a : Arguments) : List String → Except Stop Arguments
  | [] => .ok a
  | word :: words =>
    match Word.ofString word with
    | .help => .error .help
    | .version => .error .version
    | .other => .error (unexpected word)
    | .rest =>
      match words with
      | [] => .ok a
      | w :: _ => .error (unexpected w)
    | .assignment s value => do readFrom (← a.give s value) words
    | .switch s =>
      match words with
      | value :: words =>
        if Word.isValue value then do readFrom (← a.give s value) words
        else .error (.usage ("--" ++ s.word ++ " has no value"))
      | [] => .error (.usage ("--" ++ s.word ++ " has no value"))

/-- The arguments in a list of words. -/
def read (words : List String) : Except Stop Arguments := readFrom none words

end Arguments

end TradingLoad.Cli
