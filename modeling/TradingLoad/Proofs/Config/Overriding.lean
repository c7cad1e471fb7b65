import TradingLoad.Config.Load
import TradingLoad.Proofs.Text.Digits
import TradingLoad.Proofs.Url.Relative

namespace TradingLoad

open Text

namespace Variables

variable {text : String}

/-- What a setting that is a text is when a variable gives it. -/
def shown (text : String) : String := (readValue text).string?.getD text

theorem readValue_cases (text : String) :
    (∃ b, readValue text = .bool b) ∨ (∃ a, readValue text = .integer a) ∨
      (∃ d, readValue text = .real d) ∨ readValue text = .text text := by
  unfold readValue
  split
  · exact .inl ⟨_, rfl⟩
  · split
    · exact .inr (.inl ⟨_, rfl⟩)
    · split
      · exact .inr (.inr (.inl ⟨_, rfl⟩))
      · exact .inr (.inr (.inr rfl))

theorem string?_readValue (text : String) : (readValue text).string? = some (shown text) := by
  unfold shown
  rcases readValue_cases text with ⟨b, read⟩ | ⟨a, read⟩ | ⟨d, read⟩ | read <;> rw [read] <;> rfl

/-- The text names no truth value and no number, or does so in the way in which it is written. -/
structure IsWritten (text : String) : Prop where
  bool : ∀ b, readValue text = .bool b → (if b then "true" else "false") = text
  integer : ∀ a, readValue text = .integer a → signedDecimal a = text
  real : ∀ d, readValue text = .real d → d.render = text

theorem shown_eq_self_iff : shown text = text ↔ IsWritten text := by
  unfold shown
  constructor
  · intro same
    constructor
    · intro b read
      rwa [read] at same
    · intro a read
      rwa [read] at same
    · intro d read
      rwa [read] at same
  · intro written
    rcases readValue_cases text with ⟨b, read⟩ | ⟨a, read⟩ | ⟨d, read⟩ | read
    · rw [read]
      exact written.bool b read
    · rw [read]
      exact written.integer a read
    · rw [read]
      exact written.real d read
    · rw [read]
      rfl

theorem colon_notMem_digits (n : Nat) : ':' ∉ digits n := by
  intro listed
  have digit := isDigit_of_mem_digits listed
  cases digit

theorem colon_notMem_signedDigits (a : Int) : ':' ∉ signedDigits a := by
  unfold signedDigits
  split
  · simp [colon_notMem_digits]
  · exact colon_notMem_digits _

theorem colon_notMem_positional (n : Nat) (place : Int) : ':' ∉ Double.positional n place := by
  have none := colon_notMem_digits n
  unfold Double.positional
  simp only
  split
  · simp [none]
  · split
    · intro listed
      rcases List.mem_append.mp listed with front | back
      · exact none (List.mem_of_mem_take front)
      · exact none (List.mem_of_mem_drop (List.mem_of_ne_of_mem (by decide) back))
    · simp [none]

theorem colon_notMem_toText (d : Double) : ':' ∉ d.toText := by
  cases d with
  | nan => decide
  | infinite negative => cases negative <;> decide
  | finite negative mantissa exponent =>
    have magnitude : ':' ∉ if mantissa = 0 then ['0'] else
        Double.positional (Double.shortest mantissa exponent).1
          (Double.shortest mantissa exponent).2 := by
      split
      · decide
      · exact colon_notMem_positional _ _
    cases negative with
    | false => exact magnitude
    | true =>
      intro listed
      exact magnitude (List.mem_of_ne_of_mem (by decide) listed)

/-- A text that is written otherwise than it is has no colon any more. -/
theorem shown_eq_self_or (text : String) : shown text = text ∨ ':' ∉ (shown text).toList := by
  unfold shown
  rcases readValue_cases text with ⟨b, read⟩ | ⟨a, read⟩ | ⟨d, read⟩ | read
  · rw [read]
    refine .inr ?_
    change ':' ∉ (if b then "true" else "false").toList
    cases b <;> decide
  · rw [read]
    refine .inr ?_
    change ':' ∉ (signedDecimal a).toList
    rw [signedDecimal, String.toList_ofList]
    exact colon_notMem_signedDigits a
  · rw [read]
    refine .inr ?_
    change ':' ∉ d.render.toList
    rw [Double.render, String.toList_ofList]
    exact colon_notMem_toText d
  · rw [read]
    exact .inl rfl

end Variables

/-- A URL on its own begins with a scheme and a colon. -/
theorem Url.colon_mem_of_parse {text : String} {u : Url} (parses : Url.parse text = .ok u) :
    ':' ∈ text.toList := by
  by_contra none
  have kept : ':' ∉ clean text.toList := by
    intro listed
    have inside := (List.mem_filter.mp listed).1
    rw [List.mem_reverse] at inside
    have before := (List.dropWhile_sublist _).subset inside
    rw [List.mem_reverse] at before
    exact none ((List.dropWhile_sublist _).subset before)
  unfold Url.parse Url.read at parses
  simp only [splitScheme?_eq_none kept] at parses
  cases parses

namespace Setting

variable {name key : String} {v : Setting} {es : List (String × Setting)}

theorem lookup_filter {known : String → Bool} (listed : known name = true) :
    (es.filter fun e => known e.1).lookup name = es.lookup name := by
  induction es with
  | nil => rfl
  | cons e es ih =>
    obtain ⟨other, w⟩ := e
    by_cases same : name = other
    · subst same
      simp [listed]
    · have test : (name == other) = false := beq_eq_false_iff_ne.mpr same
      cases kept : known other <;> simp [List.lookup_cons, kept, test, ih]

theorem exists_entry_steps (name : String) :
    ∃ first steps, SettingStep.ofName name = .entry first :: steps := by
  unfold SettingStep.ofName
  simp only [bind, pure]
  cases found : SettingStep.name? name.toList with
  | none => exact ⟨name, [], rfl⟩
  | some here =>
    obtain ⟨first, r⟩ := here
    cases more : SettingStep.moreFor r.length r with
    | none =>
      simp only [Option.bind_some, more]
      exact ⟨name, [], rfl⟩
    | some steps =>
      simp only [Option.bind_some, more]
      exact ⟨first, steps, rfl⟩

/-- A tree with something put into it by name is a table. -/
theorem exists_table_put (v : Setting) (name : String) (s : Setting) :
    ∃ es, put v (SettingStep.ofName name) s = table es := by
  obtain ⟨first, steps, same⟩ := exists_entry_steps name
  rw [same]
  cases steps with
  | nil => exact ⟨_, rfl⟩
  | cons step steps => exact ⟨_, rfl⟩

theorem exists_table_putAll (named : List (String × Setting)) (es : List (String × Setting)) :
    ∃ es', (table es).putAll named = table es' := by
  induction named generalizing es with
  | nil => exact ⟨es, rfl⟩
  | cons e named ih =>
    obtain ⟨es', same⟩ := exists_table_put e.2 e.1 (table es)
    have rest := ih es'
    unfold putAll at rest ⊢
    rwa [List.foldl_cons, same]

theorem putAll_append (s : Setting) (named more : List (String × Setting)) :
    s.putAll (named ++ more) = (s.putAll named).putAll more := List.foldl_append

variable {names : List String} {α : Type} {fallback : α} {read : Setting → Option α}

/-- The field of a new entry is read from it. -/
theorem defaulted_setEntry_self (listed : name ∈ names) :
    Fields.defaulted ⟨(setEntry name v es).filter fun e => names.contains e.1⟩ name fallback read =
      read v := by
  unfold Fields.defaulted Fields.get?
  rw [lookup_filter (List.contains_iff_mem.mpr listed), lookup_setEntry, if_pos rfl]

/-- A new entry leaves the fields of other names as they are. -/
theorem defaulted_setEntry_of_ne (listed : key ∈ names) (ne : key ≠ name) :
    Fields.defaulted ⟨(setEntry name v es).filter fun e => names.contains e.1⟩ key fallback read =
      Fields.defaulted ⟨es.filter fun e => names.contains e.1⟩ key fallback read := by
  unfold Fields.defaulted Fields.get?
  rw [lookup_filter (List.contains_iff_mem.mpr listed), lookup_setEntry, if_neg ne,
    lookup_filter (List.contains_iff_mem.mpr listed)]

end Setting

section

open Setting (setEntry dataNotation table defaulted_setEntry_self defaulted_setEntry_of_ne)

variable {v : Setting} {text : String} {es : List (String × Setting)}

theorem Target.ofData?_setEntry (written : v.string? = some text) {target : Target}
    (read : ofData? dataNotation (table es) = some target) :
    ofData? dataNotation (table (setEntry "base_url" v es)) =
      some { target with baseUrl := text } := by
  simp only [ofData?, bind, Option.bind_eq_some_iff] at read ⊢
  obtain ⟨r, fields, url, -, timeout, htimeout, failures, hfailures, same⟩ := read
  cases fields
  cases same
  refine ⟨_, rfl, text, ?_, timeout, ?_, failures, ?_, rfl⟩
  · rw [defaulted_setEntry_self (by decide)]
    exact written
  · rw [defaulted_setEntry_of_ne (by decide) (by decide)]
    exact htimeout
  · rw [defaulted_setEntry_of_ne (by decide) (by decide)]
    exact hfailures

theorem Target.baseUrl_of_setEntry (written : v.string? = some text) {target : Target}
    (read : ofData? dataNotation (table (setEntry "base_url" v es)) = some target) :
    target.baseUrl = text := by
  simp only [ofData?, bind, Option.bind_eq_some_iff] at read
  obtain ⟨r, fields, url, hurl, timeout, -, failures, -, same⟩ := read
  cases fields
  cases same
  rw [defaulted_setEntry_self (by decide)] at hurl
  exact Option.some.inj (hurl.symm.trans written)

theorem AppSettings.ofData?_setEntry_logLevel (written : v.string? = some text)
    {settings : AppSettings} (read : ofData? dataNotation (table es) = some settings) :
    ofData? dataNotation (table (setEntry "log_level" v es)) =
      some { settings with logLevel := text } := by
  simp only [ofData?, bind, Option.bind_eq_some_iff] at read ⊢
  obtain ⟨r, fields, level, -, word, hword, same⟩ := read
  cases fields
  cases same
  refine ⟨_, rfl, text, ?_, word, ?_, rfl⟩
  · rw [defaulted_setEntry_self (by decide)]
    exact written
  · rw [defaulted_setEntry_of_ne (by decide) (by decide)]
    exact hword

theorem AppSettings.logLevel_of_setEntry (written : v.string? = some text) {settings : AppSettings}
    (read : ofData? dataNotation (table (setEntry "log_level" v es)) = some settings) :
    settings.logLevel = text := by
  simp only [ofData?, bind, Option.bind_eq_some_iff] at read
  obtain ⟨r, fields, level, hlevel, word, -, same⟩ := read
  cases fields
  cases same
  rw [defaulted_setEntry_self (by decide)] at hlevel
  exact Option.some.inj (hlevel.symm.trans written)

theorem AppSettings.ofData?_setEntry_bankIdPrefix (written : v.string? = some text)
    {settings : AppSettings} (read : ofData? dataNotation (table es) = some settings) :
    ofData? dataNotation (table (setEntry "bank_id_prefix" v es)) =
      some { settings with bankIdPrefix := text } := by
  simp only [ofData?, bind, Option.bind_eq_some_iff] at read ⊢
  obtain ⟨r, fields, level, hlevel, word, -, same⟩ := read
  cases fields
  cases same
  refine ⟨_, rfl, level, ?_, text, ?_, rfl⟩
  · rw [defaulted_setEntry_of_ne (by decide) (by decide)]
    exact hlevel
  · rw [defaulted_setEntry_self (by decide)]
    exact written

theorem AppSettings.bankIdPrefix_of_setEntry (written : v.string? = some text)
    {settings : AppSettings}
    (read : ofData? dataNotation (table (setEntry "bank_id_prefix" v es)) = some settings) :
    settings.bankIdPrefix = text := by
  simp only [ofData?, bind, Option.bind_eq_some_iff] at read
  obtain ⟨r, fields, level, -, word, hword, same⟩ := read
  cases fields
  cases same
  rw [defaulted_setEntry_self (by decide)] at hword
  exact Option.some.inj (hword.symm.trans written)

end

/-- The settings that are texts. -/
inductive TextSetting where
  | baseUrl
  | logLevel
  | bankIdPrefix
  deriving DecidableEq

namespace TextSetting

open Setting (setEntry dataNotation table missing)

def sectionName : TextSetting → String
  | baseUrl => "target"
  | logLevel | bankIdPrefix => "settings"

def fieldName : TextSetting → String
  | baseUrl => "base_url"
  | logLevel => "log_level"
  | bankIdPrefix => "bank_id_prefix"

/-- The variable that gives the setting. -/
def variableName : TextSetting → String
  | baseUrl => "BENCH__TARGET__BASE_URL"
  | logLevel => "BENCH__SETTINGS__LOG_LEVEL"
  | bankIdPrefix => "BENCH__SETTINGS__BANK_ID_PREFIX"

def get (c : BenchConfig) : TextSetting → String
  | baseUrl => c.target.baseUrl
  | logLevel => c.settings.logLevel
  | bankIdPrefix => c.settings.bankIdPrefix

/-- The settings with another text in this place. -/
def put (text : String) (c : BenchConfig) : TextSetting → BenchConfig
  | baseUrl => { c with target := { c.target with baseUrl := text } }
  | logLevel => { c with settings := { c.settings with logLevel := text } }
  | bankIdPrefix => { c with settings := { c.settings with bankIdPrefix := text } }

/-- The settings with the standard section around this place. -/
def reset (c : BenchConfig) : TextSetting → BenchConfig
  | baseUrl => { c with target := .standard }
  | logLevel | bankIdPrefix => { c with settings := .standard }

/-- A tree gives the section around this place as a list, by position. -/
def IsListed (s : Setting) (t : TextSetting) : Prop :=
  ∃ items, s.entry? t.sectionName = some (.list items)

instance (s : Setting) (t : TextSetting) : Decidable (IsListed s t) :=
  match found : s.entry? t.sectionName with
  | some (.list items) => isTrue ⟨items, found⟩
  | some .missing | some (.bool _) | some (.integer _) | some (.real _) | some (.text _)
  | some (.table _) | none => isFalse fun ⟨_, here⟩ => nomatch found.symm.trans here

/-- The entries that a tree has in the section. -/
def entriesIn (t : TextSetting) (es : List (String × Setting)) : List (String × Setting) :=
  ((es.lookup t.sectionName).getD missing).entries

/-- A variable holds a setting by the name of a section and a field. -/
theorem exists_settingName (t : TextSetting) :
    ∃ name, Variables.settingName? t.variableName = some name ∧
      SettingStep.ofName name = [.entry t.sectionName, .entry t.fieldName] := by
  cases t with
  | baseUrl => exact ⟨"target.base_url", by decide +kernel, by decide +kernel⟩
  | logLevel => exact ⟨"settings.log_level", by decide +kernel, by decide +kernel⟩
  | bankIdPrefix => exact ⟨"settings.bank_id_prefix", by decide +kernel, by decide +kernel⟩

theorem smallName_sectionName (t : TextSetting) :
    Setting.smallName t.sectionName = t.sectionName := by
  cases t <;> rfl

theorem put_table (t : TextSetting) (text : String) (es : List (String × Setting)) :
    Setting.put (Variables.readValue text) [.entry t.sectionName, .entry t.fieldName] (table es) =
      table (setEntry t.sectionName
        (table (setEntry t.fieldName (Variables.readValue text) (t.entriesIn es))) es) := by
  have scalar (old : Setting) : Setting.merge old (Variables.readValue text) =
      Variables.readValue text := by
    rcases Variables.readValue_cases text with ⟨b, read⟩ | ⟨a, read⟩ | ⟨d, read⟩ | read <;>
      rw [read] <;> rfl
  have inSection := t.smallName_sectionName
  have inField : Setting.smallName t.fieldName = t.fieldName := by cases t <;> rfl
  simp only [Setting.put, Setting.withEntry, Setting.entry?, scalar, inSection, inField, entriesIn,
    Setting.entries]

/-- What a section is read as from its entries alone, which are none where it is a list. -/
theorem read_entriesIn {α : Type} {read : Setting → Option α} {fallback a : α} {t : TextSetting}
    {es : List (String × Setting)} {names : List String} (listed : t.sectionName ∈ names)
    (strict : ∀ s a, read s = some a → (∃ es, s = table es) ∨ ∃ items, s = .list items)
    (standard : read (table []) = some fallback)
    (found : Fields.defaulted ⟨es.filter fun e => names.contains e.1⟩ t.sectionName fallback read =
      some a) :
    (¬ t.IsListed (table es) → read (table (t.entriesIn es)) = some a) ∧
      (t.IsListed (table es) → read (table (t.entriesIn es)) = some fallback) := by
  unfold Fields.defaulted Fields.get? at found
  rw [Setting.lookup_filter (List.contains_iff_mem.mpr listed)] at found
  unfold IsListed Setting.entry? entriesIn
  rw [smallName_sectionName]
  simp only [Setting.entries]
  cases there : es.lookup t.sectionName with
  | none =>
    rw [there] at found
    cases found
    exact ⟨fun _ => standard, fun _ => standard⟩
  | some s =>
    rw [there] at found
    rcases strict s a found with ⟨entries, rfl⟩ | ⟨items, rfl⟩
    · exact ⟨fun _ => found, fun ⟨_, list⟩ => by cases list⟩
    · exact ⟨fun not => absurd ⟨items, rfl⟩ not, fun _ => standard⟩

end TextSetting

namespace BenchConfig

open Setting (setEntry dataNotation table defaulted_setEntry_self defaulted_setEntry_of_ne)

variable {c : BenchConfig} {es : List (String × Setting)} {s : Setting}

theorem ofData?_setEntry_target {target : Target}
    (section_ : Target.ofData? dataNotation s = some target)
    (read : ofData? dataNotation (table es) = some c) :
    ofData? dataNotation (table (setEntry "target" s es)) = some { c with target } := by
  simp only [ofData?, bind, Option.bind_eq_some_iff] at read ⊢
  obtain ⟨r, fields, _, -, rewards, hrewards, timing, htiming, investors, hinvestors, settings,
    hsettings, same⟩ := read
  cases fields
  cases same
  refine ⟨_, rfl, target, ?_, rewards, ?_, timing, ?_, investors, ?_, settings, ?_, rfl⟩
  · rw [defaulted_setEntry_self (by decide)]
    exact section_
  · rw [defaulted_setEntry_of_ne (by decide) (by decide)]
    exact hrewards
  · rw [defaulted_setEntry_of_ne (by decide) (by decide)]
    exact htiming
  · rw [defaulted_setEntry_of_ne (by decide) (by decide)]
    exact hinvestors
  · rw [defaulted_setEntry_of_ne (by decide) (by decide)]
    exact hsettings

theorem ofData?_setEntry_settings {settings : AppSettings}
    (section_ : AppSettings.ofData? dataNotation s = some settings)
    (read : ofData? dataNotation (table es) = some c) :
    ofData? dataNotation (table (setEntry "settings" s es)) = some { c with settings } := by
  simp only [ofData?, bind, Option.bind_eq_some_iff] at read ⊢
  obtain ⟨r, fields, target, htarget, rewards, hrewards, timing, htiming, investors, hinvestors,
    _, -, same⟩ := read
  cases fields
  cases same
  refine ⟨_, rfl, target, ?_, rewards, ?_, timing, ?_, investors, ?_, settings, ?_, rfl⟩
  · rw [defaulted_setEntry_of_ne (by decide) (by decide)]
    exact htarget
  · rw [defaulted_setEntry_of_ne (by decide) (by decide)]
    exact hrewards
  · rw [defaulted_setEntry_of_ne (by decide) (by decide)]
    exact htiming
  · rw [defaulted_setEntry_of_ne (by decide) (by decide)]
    exact hinvestors
  · rw [defaulted_setEntry_self (by decide)]
    exact section_

/-- What the two sections with texts are read from. -/
theorem sections_of_ofData? (read : ofData? dataNotation (table es) = some c) :
    Fields.defaulted ⟨es.filter fun e => fieldNames.contains e.1⟩ "target" .standard
        (Target.ofData? dataNotation) = some c.target ∧
      Fields.defaulted ⟨es.filter fun e => fieldNames.contains e.1⟩ "settings" .standard
        (AppSettings.ofData? dataNotation) = some c.settings := by
  simp only [ofData?, bind, Option.bind_eq_some_iff] at read
  obtain ⟨r, fields, target, htarget, rewards, -, timing, -, investors, -, settings, hsettings,
    same⟩ := read
  cases fields
  cases same
  exact ⟨htarget, hsettings⟩

theorem isTree_of_target {target : Target} (read : Target.ofData? dataNotation s = some target) :
    (∃ es, s = table es) ∨ ∃ items, s = .list items := by
  cases s with
  | table es => exact .inl ⟨es, rfl⟩
  | list items => exact .inr ⟨items, rfl⟩
  | _ => cases read

theorem isTree_of_settings {settings : AppSettings}
    (read : AppSettings.ofData? dataNotation s = some settings) :
    (∃ es, s = table es) ∨ ∃ items, s = .list items := by
  cases s with
  | table es => exact .inl ⟨es, rfl⟩
  | list items => exact .inr ⟨items, rfl⟩
  | _ => cases read

/-- The entries of a tree after a variable has given a text. -/
def withVariable (t : TextSetting) (text : String) (es : List (String × Setting)) :
    List (String × Setting) :=
  setEntry t.sectionName
    (table (setEntry t.fieldName (Variables.readValue text) (t.entriesIn es))) es

theorem ofData?_withVariable (t : TextSetting) (text : String)
    (read : ofData? dataNotation (table es) = some c) :
    (¬ t.IsListed (table es) → ofData? dataNotation (table (withVariable t text es)) =
      some (t.put (Variables.shown text) c)) ∧
    (t.IsListed (table es) → ofData? dataNotation (table (withVariable t text es)) =
      some (t.put (Variables.shown text) (t.reset c))) := by
  have written := Variables.string?_readValue text
  obtain ⟨htarget, hsettings⟩ := sections_of_ofData? read
  cases t with
  | baseUrl =>
    obtain ⟨kept, lost⟩ := TextSetting.read_entriesIn (t := .baseUrl) (by decide)
      (fun _ _ => isTree_of_target) rfl htarget
    refine ⟨fun tabled => ?_, fun listed => ?_⟩
    · exact ofData?_setEntry_target (Target.ofData?_setEntry written (kept tabled)) read
    · have section_ := Target.ofData?_setEntry written (lost listed)
      exact (ofData?_setEntry_target section_ read).trans rfl
  | logLevel =>
    obtain ⟨kept, lost⟩ := TextSetting.read_entriesIn (t := .logLevel) (by decide)
      (fun _ _ => isTree_of_settings) rfl hsettings
    refine ⟨fun tabled => ?_, fun listed => ?_⟩
    · exact ofData?_setEntry_settings
        (AppSettings.ofData?_setEntry_logLevel written (kept tabled)) read
    · have section_ := AppSettings.ofData?_setEntry_logLevel written (lost listed)
      exact (ofData?_setEntry_settings section_ read).trans rfl
  | bankIdPrefix =>
    obtain ⟨kept, lost⟩ := TextSetting.read_entriesIn (t := .bankIdPrefix) (by decide)
      (fun _ _ => isTree_of_settings) rfl hsettings
    refine ⟨fun tabled => ?_, fun listed => ?_⟩
    · exact ofData?_setEntry_settings
        (AppSettings.ofData?_setEntry_bankIdPrefix written (kept tabled)) read
    · have section_ := AppSettings.ofData?_setEntry_bankIdPrefix written (lost listed)
      exact (ofData?_setEntry_settings section_ read).trans rfl

/-- Whatever else the tree says, the setting is the text of the variable. -/
theorem get_of_withVariable (t : TextSetting) {text : String}
    (read : ofData? dataNotation (table (withVariable t text es)) = some c) :
    t.get c = Variables.shown text := by
  have written := Variables.string?_readValue text
  obtain ⟨htarget, hsettings⟩ := sections_of_ofData? read
  cases t with
  | baseUrl =>
    unfold withVariable at htarget
    rw [show TextSetting.baseUrl.sectionName = "target" from rfl,
      defaulted_setEntry_self (by decide)] at htarget
    exact Target.baseUrl_of_setEntry written htarget
  | logLevel =>
    unfold withVariable at hsettings
    rw [show TextSetting.logLevel.sectionName = "settings" from rfl,
      defaulted_setEntry_self (by decide)] at hsettings
    exact AppSettings.logLevel_of_setEntry written hsettings
  | bankIdPrefix =>
    unfold withVariable at hsettings
    rw [show TextSetting.bankIdPrefix.sectionName = "settings" from rfl,
      defaulted_setEntry_self (by decide)] at hsettings
    exact AppSettings.bankIdPrefix_of_setEntry written hsettings

/-- The settings by name in a file that need not be there. -/
def namedIn : Option TextFile → Except ConfigError (List (String × Setting))
  | some file => fileSettings file
  | none => .ok []

/-- The tree of the settings in a file, if there is one, and in the environment. -/
def tree (file : Option TextFile) (environment : Variables) : Except ConfigError Setting := do
  let named ← namedIn file
  return ((table []).putAll named).putAll environment.settings

/-- The settings that are read, be they fit for a run or not. -/
def unchecked (file : Option TextFile) (environment : Variables) :
    Except ConfigError BenchConfig := do
  let s ← tree file environment
  match ofData? dataNotation s with
  | some c => .ok c
  | none => .error .unreadable

variable {file : Option TextFile} {e : Variables}

theorem load_eq : load file e = tree file e >>= ofSettings := by
  cases file with
  | none => rfl
  | some file =>
    unfold load tree namedIn
    simp only
    cases fileSettings file <;> rfl

theorem tree_eq_ok_iff :
    tree file e = .ok s ↔ ∃ named, namedIn file = .ok named ∧
      ((table []).putAll named).putAll e.settings = s := by
  unfold tree
  cases namedIn file with
  | error cause => simp [bind, Except.bind]
  | ok named => simp [bind, Except.bind, pure, Except.pure]

theorem exists_entries_of_tree (grown : tree file e = .ok s) : ∃ es, s = table es := by
  obtain ⟨named, -, rfl⟩ := tree_eq_ok_iff.mp grown
  obtain ⟨es, same⟩ := Setting.exists_table_putAll named []
  rw [same]
  exact Setting.exists_table_putAll _ es

theorem tree_variable (t : TextSetting) (text : String) (grown : tree file e = .ok (table es)) :
    tree file (e ++ [(t.variableName, text)]) = .ok (table (withVariable t text es)) := by
  obtain ⟨name, held, steps⟩ := t.exists_settingName
  have given : Variables.settings (e ++ [(t.variableName, text)]) =
      Variables.settings e ++ [(name, Variables.readValue text)] := by
    simp [Variables.settings, List.filterMap_append, held]
  have last : Setting.putAll (table es) [(name, Variables.readValue text)] =
      table (withVariable t text es) := by
    rw [Setting.putAll, List.foldl_cons, List.foldl_nil, steps]
    exact t.put_table text es
  obtain ⟨named, inFile, same⟩ := tree_eq_ok_iff.mp grown
  refine tree_eq_ok_iff.mpr ⟨named, inFile, ?_⟩
  rw [given, Setting.putAll_append, same, last]

/-- Settings are loaded by reading them, and then by checking what is read. -/
theorem load_eq_checked : load file e = unchecked file e >>= checked := by
  rw [load_eq]
  unfold unchecked ofSettings
  cases tree file e with
  | error cause => rfl
  | ok s =>
    simp only [bind, Except.bind]
    cases ofData? dataNotation s <;> rfl

theorem unchecked_eq_ok_iff :
    unchecked file e = .ok c ↔
      ∃ es, tree file e = .ok (table es) ∧ ofData? dataNotation (table es) = some c := by
  unfold unchecked
  cases grown : tree file e with
  | error cause => simp [bind, Except.bind]
  | ok s =>
    obtain ⟨es, rfl⟩ := exists_entries_of_tree grown
    simp only [bind, Except.bind]
    cases found : ofData? dataNotation (table es) <;> simp [found]

/-- What is read from a tree that is given with a variable more. -/
theorem unchecked_variable (t : TextSetting) (text : String) (grown : tree file e = .ok s)
    (read : unchecked file e = .ok c) :
    (¬ t.IsListed s → unchecked file (e ++ [(t.variableName, text)]) =
      .ok (t.put (Variables.shown text) c)) ∧
    (t.IsListed s → unchecked file (e ++ [(t.variableName, text)]) =
      .ok (t.put (Variables.shown text) (t.reset c))) := by
  obtain ⟨es, there, data⟩ := unchecked_eq_ok_iff.mp read
  obtain rfl := Except.ok.inj (there.symm.trans grown)
  obtain ⟨kept, lost⟩ := ofData?_withVariable t text data
  have more := tree_variable t text there
  exact ⟨fun tabled => unchecked_eq_ok_iff.mpr ⟨_, more, kept tabled⟩,
    fun listed => unchecked_eq_ok_iff.mpr ⟨_, more, lost listed⟩⟩

theorem load_eq_ok_iff : load file e = .ok c ↔ unchecked file e = .ok c ∧ c.check = .ok () := by
  rw [load_eq_checked]
  cases unchecked file e with
  | error cause => simp [bind, Except.bind]
  | ok c' =>
    simp only [bind, Except.bind, checked, Except.ok.injEq]
    constructor
    · intro passed
      cases accepted : c'.check with
      | error cause =>
        rw [accepted] at passed
        cases passed
      | ok u =>
        rw [accepted] at passed
        cases passed
        exact ⟨rfl, accepted⟩
    · rintro ⟨rfl, accepted⟩
      rw [accepted]
      rfl

theorem colon_mem_of_check (accepted : c.check = .ok ()) : ':' ∈ c.target.baseUrl.toList := by
  unfold check at accepted
  split at accepted
  · cases accepted
  · next u parses => exact Url.colon_mem_of_parse parses

/-- The setting is the written form of the text of the variable. A target that passes the check has
a colon, as no truth value and no number has, so it is that very text. -/
theorem get_of_load (t : TextSetting) {text : String}
    (loaded : load file (e ++ [(t.variableName, text)]) = .ok c) :
    t.get c = Variables.shown text ∧ (t = .baseUrl → t.get c = text) := by
  obtain ⟨read, accepted⟩ := load_eq_ok_iff.mp loaded
  obtain ⟨es', grown', data⟩ := unchecked_eq_ok_iff.mp read
  obtain ⟨named, inFile, -⟩ := tree_eq_ok_iff.mp grown'
  have grown : tree file e = .ok (((table []).putAll named).putAll e.settings) :=
    tree_eq_ok_iff.mpr ⟨named, inFile, rfl⟩
  obtain ⟨es, same⟩ := exists_entries_of_tree grown
  rw [same] at grown
  obtain rfl : es' = withVariable t text es := by
    have here := grown'.symm.trans (tree_variable t text grown)
    injection here with here
    injection here
  have isShown := get_of_withVariable t data
  refine ⟨isShown, fun target => ?_⟩
  subst target
  have colon := colon_mem_of_check accepted
  rcases Variables.shown_eq_self_or text with itself | none
  · exact isShown.trans itself
  · exact absurd (isShown ▸ colon) none

end BenchConfig

end TradingLoad
