import TradingLoad.Cli.Run

namespace TradingLoad.Cli

open Text

/-- The content of a file, if it is there and can be read. -/
def readFile? (path : String) : IO (Option String) := do
  try
    return some (String.ofList (ofUtf8 (← IO.FS.readBinFile path).toList))
  catch _ => return none

/-- The variables of the environment. -/
def readVariables : IO Variables := do
  let content ← readFile? "/proc/self/environ"
  return (Url.splitAt '\x00' (content.getD "").toList).filterMap fun entry =>
    match Url.cut (· = '=') entry with
    | (name, _ :: value) => some (String.ofList name, String.ofList value)
    | _ => none

/-- How many folders above the present one are looked into for a file of variables. -/
def mostFolders : Nat := 64

/-- The file of variables in the present folder, or in the nearest one above it. -/
def findEnvFile : Nat → String → IO (Option String)
  | 0, _ => return none
  | n + 1, folder => do
    match ← readFile? (folder ++ ".env") with
    | some content => return some content
    | none => findEnvFile n (folder ++ "../")

/-- A file of settings. -/
def readSettings (path : String) : IO (Option TextFile) := do
  return (← readFile? path).map fun content => ⟨Folder.fileName path, content⟩

def helpText : String :=
  "Usage: exchange_bench [OPTIONS]\n\nOptions:\n" ++
    String.join (Switch.all.map fun s => "  " ++ s.describe ++ "\n") ++
    "  -h, --help: this text\n  -V, --version: the version\n"

def printStop : Stop → IO Unit
  | .help => IO.print helpText
  | .version => IO.println "exchange_bench 0.1.0"
  | .usage problem => IO.eprint (Ending.usage (.usage problem)).complaint

end TradingLoad.Cli

open TradingLoad TradingLoad.Cli in
/-- Runs the program and returns its exit code. -/
def main (words : List String) : IO UInt32 := do
  let environment ← readVariables
  match readArguments words environment with
  | .error stop => do
    printStop stop
    return UInt32.ofNat (Ending.usage stop).exitCode
  | .ok a => do
    let configFile ← match a.config with
      | some path => readSettings path
      | none => pure none
    let result := run a {
      environment
      envFile := ← findEnvFile mostFolders ""
      configFile
      random := .ofSeed (UInt64.ofNat (← IO.rand 0 0xffffffffffffffff))
      network := Http.Network.unreachable
      networkState := ()
      now := .epoch
      clock := (← IO.monoMsNow) / 1000 }
    for line in result.log do IO.println line.render
    IO.eprint result.ending.complaint
    return UInt32.ofNat result.ending.exitCode
