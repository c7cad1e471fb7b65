import TradingLoad.Text.Decimal
import TradingLoad.Text.Quoted

namespace TradingLoad.Cli

open Text

inductive LogLevel where
  | trace
  | debug
  | info
  | warn
  | error
  deriving DecidableEq, Repr

namespace LogLevel

/-- How much a line of a level matters. -/
def weight : LogLevel → Nat
  | trace => 0
  | debug => 1
  | info => 2
  | warn => 3
  | error => 4

/-- The level that a word names, in letters of any case; a word that names none stands for `info`.
-/
def ofWord (word : String) : LogLevel :=
  match word.map Char.toLower with
  | "trace" => trace
  | "debug" => debug
  | "warn" => warn
  | "error" => error
  | _ => info

def word : LogLevel → String
  | trace => "TRACE"
  | debug => "DEBUG"
  | info => "INFO"
  | warn => "WARN"
  | error => "ERROR"

end LogLevel

structure LogLine where
  level : LogLevel
  message : String
  fields : List (String × String)
  deriving DecidableEq, Repr

namespace LogLine

def text (name value : String) : String × String := (name, value)

def quoted (name value : String) : String × String := (name, quote value)

def number (name : String) (value : Nat) : String × String := (name, decimal value)

def truth (name : String) (value : Bool) : String × String :=
  (name, if value then "true" else "false")

/-- The line is shown at a level. -/
def isShown (level : LogLevel) (l : LogLine) : Bool := level.weight ≤ l.level.weight

def render (l : LogLine) : String :=
  l.level.word ++ " " ++ l.message ++
    String.join (l.fields.map fun f => " " ++ f.1 ++ "=" ++ f.2)

end LogLine

end TradingLoad.Cli
