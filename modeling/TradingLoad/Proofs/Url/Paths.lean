import TradingLoad.Url.Reader

namespace TradingLoad.Url

open Text

theorem splitAt_cons (separator c : Char) (cs : List Char) :
    splitAt separator (c :: cs) =
      if c = separator then [] :: splitAt separator cs
      else (splitAt separator cs).modifyHead (c :: ·) := by
  rw [splitAt]
  split
  · rfl
  · cases pieces : splitAt separator cs with
    | nil => exact absurd pieces (splitAt_ne_nil separator cs)
    | cons piece rest => rfl

/-- What stands in a piece of a text stands in the text, and is no separator. -/
theorem of_mem_piece {separator c : Char} {cs piece : List Char}
    (mem : piece ∈ splitAt separator cs) (inside : c ∈ piece) : c ∈ cs ∧ c ≠ separator := by
  induction cs generalizing piece with
  | nil =>
    obtain rfl := List.mem_singleton.mp mem
    cases inside
  | cons d cs ih =>
    have further {piece : List Char} (later : piece ∈ splitAt separator cs) (inside : c ∈ piece) :
        c ∈ d :: cs ∧ c ≠ separator := by
      obtain ⟨mem, other⟩ := ih later inside
      exact ⟨List.mem_cons_of_mem d mem, other⟩
    rw [splitAt_cons] at mem
    split at mem
    · rcases List.mem_cons.mp mem with rfl | later
      · cases inside
      · exact further later inside
    · next other =>
      obtain ⟨first, rest, pieces⟩ := List.exists_cons_of_ne_nil (splitAt_ne_nil separator cs)
      rw [pieces] at mem further
      rcases List.mem_cons.mp mem with rfl | later
      · rcases List.mem_cons.mp inside with rfl | inside
        · exact ⟨List.mem_cons_self, other⟩
        · exact further List.mem_cons_self inside
      · exact further (List.mem_cons_of_mem _ later) inside

def Slashless (steps : List (List Char)) : Prop := ∀ step ∈ steps, '/' ∉ step

variable {steps done : List (List Char)} {kind : SchemeKind}

theorem slashless_nil : Slashless [] := List.forall_mem_nil _

theorem Slashless.append (front : Slashless done) (back : Slashless steps) :
    Slashless (done ++ steps) :=
  List.forall_mem_append.mpr ⟨front, back⟩

theorem slashless_singleton {step : List Char} (h : '/' ∉ step) : Slashless [step] :=
  List.forall_mem_singleton.mpr h

theorem slash_notMem_escapeOctet (b : UInt8) : '/' ∉ escapeOctet b := by
  have digit : ∀ n < 16, '/' ≠ (Nat.digitChar n).toUpper := by decide
  have size := b.toNat_lt
  simp only [escapeOctet, List.mem_cons, List.not_mem_nil, or_false, not_or]
  exact ⟨by decide, digit _ (by omega), digit _ (by omega)⟩

theorem slash_notMem_escape {e : EscapeSet} {step : List Char} (h : '/' ∉ step) :
    '/' ∉ escape e step := by
  intro mem
  obtain ⟨c, inside, mem⟩ := List.mem_flatMap.mp mem
  split at mem
  · obtain ⟨b, -, mem⟩ := List.mem_flatMap.mp mem
    exact slash_notMem_escapeOctet b mem
  · rw [List.mem_singleton] at mem
    exact h (mem ▸ inside)

theorem slash_notMem_keptStep {step : List Char} (h : '/' ∉ step) : '/' ∉ keptStep kind step := by
  unfold keptStep
  split
  · rw [List.mem_append, not_or]
    exact ⟨fun mem => h (List.mem_of_mem_take mem), by decide⟩
  · exact slash_notMem_escape h

theorem Slashless.stepBack (clear : Slashless done) : Slashless (stepBack kind done) := by
  unfold Url.stepBack
  split
  · exact clear
  · exact fun step mem => clear step ((List.dropLast_sublist done).subset mem)

theorem Slashless.follow (clear : Slashless done) (ahead : Slashless steps) :
    Slashless (follow kind done steps) := by
  have empty : Slashless [[]] := slashless_singleton List.not_mem_nil
  fun_induction Url.follow kind done steps with
  | case1 => exact clear
  | case2 done step => exact clear.stepBack.append empty
  | case3 done step => exact clear.append empty
  | case4 done step =>
    exact clear.append (slashless_singleton (slash_notMem_keptStep (ahead step (by simp))))
  | case5 done step next rest _ ih =>
    exact ih clear.stepBack fun s mem => ahead s (List.mem_cons_of_mem _ mem)
  | case6 done step next rest _ _ ih =>
    exact ih clear fun s mem => ahead s (List.mem_cons_of_mem _ mem)
  | case7 done step next rest _ _ ih =>
    refine ih (clear.append (slashless_singleton (slash_notMem_keptStep (ahead step (by simp))))) ?_
    exact fun s mem => ahead s (List.mem_cons_of_mem _ mem)

theorem Slashless.withoutEmptyStart (clear : Slashless steps) :
    Slashless (withoutEmptyStart steps) := by
  fun_induction Url.withoutEmptyStart steps with
  | case1 next rest ih => exact ih fun step mem => clear step (List.mem_cons_of_mem _ mem)
  | case2 => exact clear

/-- The first step is not empty, unless it is the only one. -/
def StartsFilled (steps : List (List Char)) : Prop := ∀ next rest, steps ≠ [] :: next :: rest

theorem startsFilled_nil : StartsFilled [] := by
  intro next rest same
  cases same

theorem startsFilled_root : StartsFilled [[]] := by
  intro next rest same
  cases same

theorem startsFilled_withoutEmptyStart (steps : List (List Char)) :
    StartsFilled (withoutEmptyStart steps) := by
  fun_induction withoutEmptyStart steps with
  | case1 next rest ih => exact ih
  | case2 steps filled => exact filled

theorem withoutEmptyStart_eq_self (filled : StartsFilled steps) : withoutEmptyStart steps = steps :=
  withoutEmptyStart.eq_2 steps filled

/-- What can follow is told by the first step alone. -/
theorem StartsFilled.append (closed : StartsFilled (done ++ [[]])) (first : steps.head? ≠ some []) :
    StartsFilled (done ++ steps) := by
  rintro next rest same
  cases done with
  | nil =>
    rw [List.nil_append] at same
    rw [same] at first
    exact first rfl
  | cons step done =>
    obtain ⟨rfl, -⟩ := List.cons.inj same
    obtain ⟨next, rest, more⟩ := List.exists_cons_of_ne_nil (List.append_ne_nil_of_right_ne_nil done
      (List.cons_ne_nil ([] : List Char) []))
    exact closed next rest (congrArg ([] :: ·) more)

theorem StartsFilled.concat (filled : StartsFilled steps) (ended : steps.getLast? ≠ some []) :
    StartsFilled (steps ++ [[]]) := by
  intro next rest same
  cases steps with
  | nil => cases same
  | cons step done =>
    obtain ⟨rfl, -⟩ := List.cons.inj same
    cases done with
    | nil => exact ended rfl
    | cons next rest => exact filled next rest rfl

/-- A path in the form that reading gives it. -/
structure Path.IsTidy (kind : SchemeKind) (path : Path) : Prop where
  slashless : Slashless path.stepList
  start : kind = .file → StartsFilled path.stepList

theorem isTidy_flat (text : List Char) : (Path.flat text).IsTidy kind :=
  ⟨slashless_nil, fun _ => startsFilled_nil⟩

theorem isTidy_empty : (Path.steps []).IsTidy kind := ⟨slashless_nil, fun _ => startsFilled_nil⟩

theorem isTidy_root : (Path.steps [[]]).IsTidy kind :=
  ⟨slashless_singleton List.not_mem_nil, fun _ => startsFilled_root⟩

theorem isTidy_pathFrom (clear : Slashless done) (cs : List Char) :
    (pathFrom kind done cs).IsTidy kind := by
  have followed : Slashless (follow kind done (splitSteps kind cs)) :=
    clear.follow fun step mem slash => (of_mem_piece mem slash).2 rfl
  constructor
  · intro step mem
    simp only [pathFrom, Path.stepList] at mem
    split at mem
    · exact followed.withoutEmptyStart step mem
    · exact followed step mem
  · intro file
    simp only [pathFrom, Path.stepList, if_pos file]
    exact startsFilled_withoutEmptyStart _

/-- A slash at the end changes nothing. -/
theorem Path.IsTidy.closed {path : Path} (tidy : path.IsTidy kind) : path.closed.IsTidy kind := by
  cases path with
  | flat text =>
    unfold Path.closed
    split
    · exact isTidy_flat _
    · split <;> exact isTidy_flat _
    · contradiction
  | steps ss =>
    rw [Path.closed]
    split
    · exact tidy
    · next ended =>
      exact ⟨tidy.slashless.append (slashless_singleton List.not_mem_nil),
        fun file => (tidy.start file).concat ended⟩

/-- A URL whose path is in the form that reading gives it. -/
def IsTidy (u : Url) : Prop := u.path.IsTidy u.kind

variable {u base : Url}

theorem isTidy_withTail {path : Path} {tail : Tail} (same : u.kind = kind)
    (tidy : path.IsTidy kind) : (withTail u path tail).IsTidy := by
  rw [← same] at tidy
  exact tidy

theorem IsTidy.slashless_dropLast (tidy : u.IsTidy) : Slashless u.path.stepList.dropLast :=
  fun step mem => tidy.slashless step ((List.dropLast_sublist _).subset mem)

/-- What a reader gives, if it gives anything, has a property. -/
def Gives {α : Type} (P : α → Prop) : Except UrlError α → Prop
  | .error _ => True
  | .ok a => P a

theorem gives_bind {α β : Type} {P : β → Prop} {x : Except UrlError α} {f : α → Except UrlError β}
    (each : ∀ a, Gives P (f a)) : Gives P (x >>= f) := by
  cases x with
  | error e => trivial
  | ok a => exact each a

theorem isTidy_ofAuthority (scheme cs : List Char) : Gives IsTidy (ofAuthority scheme cs) := by
  unfold ofAuthority
  simp only
  split
  · trivial
  split
  · trivial
  split
  all_goals
    apply gives_bind
    intro host
    apply gives_bind
    intro port
    split
    · trivial
    apply isTidy_withTail rfl
    split
  · exact isTidy_empty
  · exact isTidy_pathFrom slashless_nil _
  · exact isTidy_root
  · exact isTidy_pathFrom slashless_nil _

theorem isTidy_ofFileHost (cs : List Char) : Gives IsTidy (ofFileHost cs) := by
  unfold ofFileHost
  simp only
  split
  all_goals
    split
    all_goals
      apply gives_bind
      intro host
      exact isTidy_withTail rfl (isTidy_pathFrom slashless_nil _)

/-- A file is read relative to another file. -/
theorem isTidy_ofFile {base : Option Url} (tidy : ∀ b ∈ base, b.IsTidy ∧ b.kind = .file)
    (cs : List Char) : Gives IsTidy (ofFile base cs) := by
  have rootFile : fileRoot.kind = .file := by decide
  obtain ⟨rootTidy, file⟩ : (base.getD fileRoot).IsTidy ∧ (base.getD fileRoot).kind = .file := by
    cases base with
    | none => exact ⟨isTidy_empty, rootFile⟩
    | some b => exact tidy b rfl
  have absolute (u : Url) (file : u.kind = .file) (path : List Char) (tail : Tail) :
      (u.withTail (pathFrom .file [] path) tail).IsTidy :=
    isTidy_withTail file (isTidy_pathFrom slashless_nil path)
  unfold ofFile
  simp only
  split
  -- without a path of its own the URL keeps the base's
  iterate 3
    · cases base with
      | none => exact absolute fileRoot rootFile _ _
      | some b => exact rootTidy
  · split
    · split
      · split
        · exact isTidy_ofFileHost _
        · apply absolute
          split
          · exact rootFile
          · exact file
      · exact absolute _ file _ _
    · split
      · exact absolute _ rootFile _ _
      · exact isTidy_withTail file (isTidy_pathFrom rootTidy.slashless.stepBack _)

theorem isTidy_relativeTo (tidy : base.IsTidy) (cs : List Char) :
    Gives IsTidy (relativeTo base cs) := by
  have absolute (path : List Char) (tail : Tail) :
      (base.withTail (pathFrom base.kind [] path) tail).IsTidy :=
    isTidy_withTail rfl (isTidy_pathFrom slashless_nil path)
  unfold relativeTo
  simp only
  split
  iterate 3 exact tidy
  · exact isTidy_ofAuthority _ _
  · split
    · split
      · split
        · exact isTidy_ofAuthority _ _
        · exact absolute _ _
      · exact absolute _ _
    · exact isTidy_withTail rfl (isTidy_pathFrom tidy.slashless_dropLast _)

theorem isTidy_ofOther {scheme : List Char} (other : SchemeKind.of scheme = .other)
    (cs : List Char) : Gives IsTidy (ofOther scheme cs) := by
  unfold ofOther
  split
  · exact isTidy_ofAuthority _ _
  · apply isTidy_withTail
    · exact other
    · split
      · exact isTidy_pathFrom slashless_nil _
      · exact isTidy_flat _

theorem isTidy_ofScheme {base : Option Url} (tidy : ∀ b ∈ base, b.IsTidy) (scheme cs : List Char) :
    Gives IsTidy (ofScheme base scheme cs) := by
  unfold ofScheme
  split
  · next other => exact isTidy_ofOther other cs
  · apply isTidy_ofFile
    intro b mem
    obtain ⟨mem, file⟩ := Option.mem_filter_iff.mp mem
    exact ⟨tidy b mem, of_decide_eq_true file⟩
  · simp only
    split
    · next b found => exact isTidy_relativeTo (tidy b (Option.mem_filter_iff.mp found).1) _
    · exact isTidy_ofAuthority _ _

/-- What is read, on its own or relative to a URL that was read, has a path in the form that reading
gives it. -/
theorem isTidy_read {base : Option Url} (tidy : ∀ b ∈ base, b.IsTidy) (text : List Char) :
    Gives IsTidy (read base text) := by
  unfold read
  simp only
  split
  · exact isTidy_ofScheme tidy _ _
  · trivial
  · next b _ =>
    have tidy := tidy b rfl
    split
    · exact tidy
    · trivial
    · split
      · next file => exact isTidy_ofFile (fun b mem => by cases mem; exact ⟨tidy, file⟩) _
      · exact isTidy_relativeTo tidy _

theorem isTidy_of_parse {text : String} (read : parse text = .ok u) : u.IsTidy := by
  have gives : Gives IsTidy (parse text) :=
    isTidy_read (fun b mem => absurd mem (Option.not_mem_none b)) _
  rw [read] at gives
  exact gives

end TradingLoad.Url
