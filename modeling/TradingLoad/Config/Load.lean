import TradingLoad.Config.EnvFile
import TradingLoad.Config.File
import TradingLoad.Config.Wire
import TradingLoad.Failure
import TradingLoad.Url.Reader

namespace TradingLoad

open Text

/-- Why there are no settings to run with. -/
inductive ConfigError where
  /-- The file or a value in it cannot be read. -/
  | unreadable
  | invalidTarget (cause : UrlError)
  /-- Investors could not have a single order. -/
  | orderCapZero
  /-- The investors of a profile would trade nothing, or for nothing. -/
  | unitNotPositive (profile : Nat)
  /-- The investors of a profile would start with a debt. -/
  | endowmentNegative (profile : Nat)
  deriving DecidableEq, Repr

namespace ConfigError

def message : ConfigError → String
  | unreadable => "the settings cannot be read"
  | invalidTarget cause => "invalid target url: " ++ cause.message
  | orderCapZero => "timing.order_cap must be at least 1"
  | unitNotPositive profile =>
    "investors[" ++ decimal profile ++ "]: unit_amount and unit_price must be positive"
  | endowmentNegative profile =>
    "investors[" ++ decimal profile ++ "]: credit and inventory must not be negative"

def toFailure (e : ConfigError) : Failure := .configuration e.message

end ConfigError

namespace BenchConfig

/-- Checks a profile that has so many before it. -/
def checkProfile (place : Nat) (p : InvestorProfile) : Except ConfigError Unit :=
  if p.unitAmount ≤ 0 ∨ p.unitPrice ≤ 0 then .error (.unitNotPositive place)
  else if p.credit < 0 ∨ p.inventory < 0 then .error (.endowmentNegative place)
  else .ok ()

/-- Checks profiles of which the first one has so many before it. -/
def checkProfiles : Nat → List InvestorProfile → Except ConfigError Unit
  | _, [] => .ok ()
  | place, p :: ps => do
    checkProfile place p
    checkProfiles (place + 1) ps

/-- A profile with which investors can trade. -/
def IsTradable (p : InvestorProfile) : Prop :=
  0 < p.unitAmount ∧ 0 < p.unitPrice ∧ 0 ≤ p.credit ∧ 0 ≤ p.inventory

theorem checkProfile_eq_ok_iff {place : Nat} {p : InvestorProfile} :
    checkProfile place p = .ok () ↔ IsTradable p := by
  simp only [checkProfile, IsTradable]
  split
  · next h => simp only [reduceCtorEq, false_iff]; omega
  · split
    · next h => simp only [reduceCtorEq, false_iff]; omega
    · simp only [true_iff]; omega

theorem checkProfiles_eq_ok_iff {place : Nat} {ps : List InvestorProfile} :
    checkProfiles place ps = .ok () ↔ ∀ p ∈ ps, IsTradable p := by
  induction ps generalizing place with
  | nil => simp [checkProfiles]
  | cons p ps ih =>
    rw [checkProfiles, List.forall_mem_cons, ← @checkProfile_eq_ok_iff place,
      ← @ih (place + 1)]
    cases h : checkProfile place p with
    | error e => simp [bind, Except.bind]
    | ok u => simp [bind, Except.bind]

/-- The settings are fit for a run. -/
def check (c : BenchConfig) : Except ConfigError Unit :=
  match Url.parse c.target.baseUrl with
  | .error cause => .error (.invalidTarget cause)
  | .ok _ =>
    if c.timing.orderCap = 0 then .error .orderCapZero
    else checkProfiles 0 c.investors

def checked (c : BenchConfig) : Except ConfigError BenchConfig := do
  c.check
  return c

/-- The settings in a file by name. A file in no known format has none. -/
def fileSettings (file : TextFile) : Except ConfigError (List (String × Setting)) :=
  match SettingsFormat.ofFileName? file.name with
  | none => .ok []
  | some format =>
    match format.read? file.content with
    | some settings => .ok settings
    | none => .error .unreadable

/-- The settings in a tree. -/
def ofSettings (s : Setting) : Except ConfigError BenchConfig :=
  match ofData? Setting.dataNotation s with
  | some c => c.checked
  | none => .error .unreadable

/-- The settings in a file, if there is one, and in the environment. -/
def load (file : Option TextFile) (environment : Variables) : Except ConfigError BenchConfig := do
  let inFile ← match file with
    | some file => fileSettings file
    | none => pure []
  ofSettings (((Setting.table []).putAll inFile).putAll environment.settings)

/-- The standard settings, of which two variables of the environment can change the target and the
level of the log. -/
def ofEnvironment (environment : Variables) : Except ConfigError BenchConfig :=
  checked
    { standard with
      target :=
        { Target.standard with
          baseUrl := (environment.lookup "BENCH_TARGET_URL").getD Target.standard.baseUrl }
      settings :=
        { AppSettings.standard with
          logLevel := (environment.lookup "BENCH_LOG_LEVEL").getD AppSettings.standard.logLevel } }

end BenchConfig

end TradingLoad
