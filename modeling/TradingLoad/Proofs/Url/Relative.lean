import TradingLoad.Proofs.Url.Paths
import Mathlib.Data.List.TakeWhile

namespace TradingLoad.Url

open Text

/-- A character that no reader of a URL takes for anything else, or a slash. -/
def isRouteChar (c : Char) : Bool :=
  c.isDigit || ('a'.toNat ≤ c.toNat && c.toNat ≤ 'z'.toNat) || c = '-' || c = '/'

/-- A route from where one is: it does not begin with a slash. -/
structure IsRoute (cs : List Char) : Prop where
  plain : ∀ c ∈ cs, isRouteChar c
  start : cs.head? ≠ some '/'

variable {cs step : List Char} {steps done : List (List Char)} {kind : SchemeKind} {c mark : Char}
  {base : Url}

theorem toNat_of_isRouteChar (plain : isRouteChar c) : 32 < c.toNat ∧ c.toNat < 127 := by
  have marks : '0'.toNat = 48 ∧ '9'.toNat = 57 ∧ 'a'.toNat = 97 ∧ 'z'.toNat = 122 := by decide
  simp only [isRouteChar, Bool.or_eq_true, Bool.and_eq_true, decide_eq_true_eq] at plain
  rcases plain with ((digit | letter) | rfl) | rfl
  · have bounds := Char.isDigit_iff_toNat.mp digit
    omega
  · omega
  · decide
  · decide

theorem mark_notMem (plain : ∀ c ∈ cs, isRouteChar c) (other : isRouteChar mark = false) :
    mark ∉ cs := by
  intro mem
  rw [plain mark mem] at other
  cases other

theorem contains_path_eq_false (plain : isRouteChar c) : EscapeSet.path.contains c = false := by
  have clear : EscapeSet.path.visible.all (fun mark => !isRouteChar mark) = true := by decide
  have visible : c ∉ EscapeSet.path.visible := by
    intro listed
    have other := List.all_eq_true.mp clear c listed
    rw [plain] at other
    cases other
  have shown := toNat_of_isRouteChar plain
  simp [EscapeSet.contains, isControl, visible]
  omega

theorem clean_eq_self (visible : ∀ c ∈ cs, 32 < c.toNat) : clean cs = cs := by
  have trimmed {ds : List Char} (visible : ∀ c ∈ ds, 32 < c.toNat) :
      (ds.dropWhile fun c => c.toNat ≤ 32) = ds := by
    cases ds with
    | nil => rfl
    | cons c r =>
      have shown := visible c List.mem_cons_self
      exact List.dropWhile_cons_of_neg (by simpa using shown)
  unfold clean
  simp only
  rw [trimmed visible, trimmed (fun c mem => visible c (List.mem_reverse.mp mem)),
    List.reverse_reverse]
  rw [List.filter_eq_self]
  intro c mem
  have shown := visible c mem
  have hidden : '\t'.toNat ≤ 32 ∧ '\n'.toNat ≤ 32 ∧ '\r'.toNat ≤ 32 := by decide
  have apart {d : Char} (blank : d.toNat ≤ 32) : c ≠ d := by
    rintro rfl
    omega
  simp [apart hidden.1, apart hidden.2.1, apart hidden.2.2]

theorem cut_eq_self (absent : mark ∉ cs) : cut (· = mark) cs = (cs, []) := by
  have kept : ∀ c ∈ cs, (!decide (c = mark)) = true := by
    intro c mem
    have other : c ≠ mark := fun same => absent (same ▸ mem)
    simp [other]
  rw [cut, List.takeWhile_eq_self_iff.mpr kept, List.dropWhile_eq_nil_iff.mpr kept]

theorem splitScheme?_eq_none (colon : ':' ∉ cs) : splitScheme? cs = none := by
  unfold splitScheme?
  split
  · next c r scheme rest found =>
    have mem : ':' ∈ (cut (fun c => !isSchemeChar c) (c :: r)).2 := by
      rw [found]
      exact List.mem_cons_self
    exact absurd ((List.dropWhile_sublist _).subset mem) colon
  · rfl

theorem tail_eq (plain : ∀ c ∈ cs, isRouteChar c) : Tail.of kind cs = ⟨cs, none, none⟩ := by
  have hash : '#' ∉ cs := mark_notMem plain (by decide)
  have question : '?' ∉ cs := mark_notMem plain (by decide)
  simp [Tail.of, cut_eq_self hash, cut_eq_self question]

theorem plainDots_eq_self (percent : '%' ∉ cs) : plainDots cs = cs := by
  fun_induction plainDots cs with
  | case1 => exact absurd List.mem_cons_self percent
  | case2 => exact absurd List.mem_cons_self percent
  | case3 c r _ _ ih => rw [ih fun mem => percent (List.mem_cons_of_mem _ mem)]
  | case4 => rfl

theorem isDrive_eq_false (plain : ∀ c ∈ step, isRouteChar c) : isDrive step = false := by
  have colon : ':' ∉ step := mark_notMem plain (by decide)
  have bar : '|' ∉ step := mark_notMem plain (by decide)
  unfold isDrive
  split
  · exact absurd (by simp) colon
  · exact absurd (by simp) bar
  · rfl

/-- A step that stays as it is, wherever it is followed. -/
structure IsPlainStep (kind : SchemeKind) (step : List Char) : Prop where
  ahead : isDotDot step = false ∧ isDot step = false
  kept : keptStep kind step = step

theorem isPlainStep (plain : ∀ c ∈ step, isRouteChar c) : IsPlainStep kind step := by
  have percent : '%' ∉ step := mark_notMem plain (by decide)
  have dot : '.' ∉ step := mark_notMem plain (by decide)
  constructor
  · rw [isDotDot, isDot, plainDots_eq_self percent]
    constructor
    · refine decide_eq_false fun same => dot ?_
      rw [same]
      exact List.mem_cons_self
    · refine decide_eq_false fun same => dot ?_
      rw [same]
      exact List.mem_cons_self
  · rw [keptStep, isDrive_eq_false plain,
      escape_eq_self fun c mem => contains_path_eq_false (plain c mem)]
    simp

theorem follow_eq_append (plain : ∀ step ∈ steps, IsPlainStep kind step) :
    follow kind done steps = done ++ steps := by
  induction steps generalizing done with
  | nil => rw [follow, List.append_nil]
  | cons step rest ih =>
    have here := plain step List.mem_cons_self
    cases rest with
    | nil => rw [follow, here.ahead.1, here.ahead.2, here.kept]; simp
    | cons next rest =>
      rw [follow, here.ahead.1, here.ahead.2, here.kept]
      simp only [Bool.false_eq_true, if_false]
      rw [ih fun s mem => plain s (List.mem_cons_of_mem _ mem), List.append_assoc]
      rfl

theorem render_splitAt (cs : List Char) : (Path.steps (splitAt '/' cs)).render = '/' :: cs := by
  induction cs with
  | nil => rfl
  | cons c cs ih =>
    rw [splitAt_cons]
    split
    · next slash =>
      rw [Path.render, List.flatMap_cons]
      rw [Path.render] at ih
      rw [ih, slash]
      rfl
    · obtain ⟨first, rest, pieces⟩ := List.exists_cons_of_ne_nil (splitAt_ne_nil '/' cs)
      rw [pieces, Path.render, List.flatMap_cons] at ih
      rw [pieces, List.modifyHead_cons, Path.render, List.flatMap_cons]
      rw [List.cons_append] at ih ⊢
      rw [List.cons_append, List.tail_eq_of_cons_eq ih]

theorem splitSteps_eq (plain : ∀ c ∈ cs, isRouteChar c) : splitSteps kind cs = splitAt '/' cs := by
  have backslash : '\\' ∉ cs := mark_notMem plain (by decide)
  have same : cs.map (fun c => if isSlash kind c then '/' else c) = cs.map id := by
    apply List.map_congr_left
    intro c mem
    have other : c ≠ '\\' := fun same => backslash (same ▸ mem)
    by_cases slash : c = '/' <;> simp [isSlash, other, slash]
  rw [splitSteps, same, List.map_id]

theorem head?_splitAt_ne (filled : cs ≠ []) (start : cs.head? ≠ some '/') :
    (splitAt '/' cs).head? ≠ some [] := by
  obtain ⟨c, r, rfl⟩ := List.exists_cons_of_ne_nil filled
  have other : c ≠ '/' := fun same => start (congrArg _ same)
  obtain ⟨first, rest, pieces⟩ := List.exists_cons_of_ne_nil (splitAt_ne_nil '/' r)
  rw [splitAt_cons, if_neg other, pieces]
  simp

theorem render_append (done steps : List (List Char)) :
    (Path.steps (done ++ steps)).render = (Path.steps done).render ++ (Path.steps steps).render :=
  List.flatMap_append

/-- A path of steps ends with a slash if its last step is empty. -/
theorem getLast?_render (clear : Slashless steps) :
    (Path.steps steps).render.getLast? = some '/' ↔ steps.getLast? = some [] := by
  rcases List.eq_nil_or_concat steps with rfl | ⟨front, step, rfl⟩
  · simp [Path.render]
  · rw [List.concat_eq_append] at clear ⊢
    rw [render_append]
    cases step with
    | nil => simp [Path.render]
    | cons c r =>
      have last : (Path.steps [c :: r]).render.getLast? = (c :: r).getLast? := by
        simp [Path.render, List.getLast?_cons_cons]
      have absent : '/' ∉ c :: r := clear _ (List.mem_append_right _ List.mem_cons_self)
      rw [List.getLast?_append, last, List.getLast?_cons]
      constructor
      · intro slash
        exact absurd (List.mem_of_getLast? (List.getLast?_cons.trans slash)) absent
      · simp

/-- A text with a slash at its end, which is put there if it is not there yet. -/
def withSlash (cs : List Char) : List Char := if cs.getLast? = some '/' then cs else cs ++ ['/']

theorem render_closed (clear : Slashless steps) :
    (Path.steps steps).closed.render = withSlash (Path.steps steps).render := by
  unfold withSlash
  by_cases ended : steps.getLast? = some []
  · rw [if_pos ((getLast?_render clear).mpr ended), Path.closed, if_pos ended]
  · rw [if_neg fun slash => ended ((getLast?_render clear).mp slash), Path.closed, if_neg ended,
      render_append]
    rfl

theorem exists_closed_flat (text : List Char) : ∃ flat, (Path.flat text).closed = .flat flat := by
  unfold Path.closed
  split
  · exact ⟨_, rfl⟩
  · split <;> exact ⟨_, rfl⟩
  · contradiction

/-- Where a route leads from a closed path with steps. -/
theorem pathFrom_route (route : IsRoute cs) (filled : cs ≠ [])
    (tidy : (Path.steps (done ++ [[]])).IsTidy kind) :
    pathFrom kind done cs = .steps (done ++ splitAt '/' cs) := by
  have plain : ∀ step ∈ splitAt '/' cs, IsPlainStep kind step := by
    intro step mem
    exact isPlainStep fun c inside => route.plain c (of_mem_piece mem inside).1
  unfold pathFrom
  simp only
  rw [splitSteps_eq route.plain, follow_eq_append plain]
  split
  · next file =>
    -- what no empty step starts, loses nothing at its start
    rw [withoutEmptyStart_eq_self ((tidy.start file).append (head?_splitAt_ne filled route.start))]
  · rfl

/-- A URL at the same place as another one, with a text at the end of the path. -/
structure Extends (v base : Url) (cs : List Char) : Prop where
  scheme : v.scheme = base.scheme
  host : v.host = base.host
  port : v.port = base.port
  path : v.path.render = base.path.render ++ cs

theorem read_route (route : IsRoute cs) :
    read base cs =
      match base.path with
      | .flat _ => .error .relativeToFlatBase
      | .steps _ => if base.kind = .file then ofFile base cs else relativeTo base cs := by
  have hash : '#' ∉ cs := mark_notMem route.plain (by decide)
  unfold read
  rw [clean_eq_self fun c mem => (toNat_of_isRouteChar (route.plain c mem)).1]
  simp only
  rw [splitScheme?_eq_none (mark_notMem route.plain (by decide))]
  simp only
  split
  · exact absurd List.mem_cons_self hash
  · next path _ => simp only [path]
  · next path => simp only [path]

/-- Without any route, one stays where one is. -/
theorem extends_of_no_route (folder : base.path = .steps steps) :
    ∃ v, read base [] = .ok v ∧ v.Extends base [] := by
  have route : IsRoute [] := ⟨by simp, by simp⟩
  rw [read_route route, folder]
  simp only
  split
  · exact ⟨_, rfl, rfl, rfl, rfl, (List.append_nil _).symm⟩
  · exact ⟨_, rfl, rfl, rfl, rfl, (List.append_nil _).symm⟩

theorem IsRoute.first_ne {r : List Char} (route : IsRoute (c :: r)) :
    c ≠ '/' ∧ c ≠ '\\' ∧ c ≠ '#' ∧ c ≠ '?' := by
  have other {mark : Char} (marks : isRouteChar mark = false) : c ≠ mark := by
    intro same
    exact mark_notMem route.plain marks (same ▸ List.mem_cons_self)
  exact ⟨fun same => route.start (congrArg _ same), other (by decide), other (by decide),
    other (by decide)⟩

theorem startsWithDrive_eq_false (plain : ∀ c ∈ cs, isRouteChar c) :
    startsWithDrive cs = false := by
  apply isDrive_eq_false
  intro c mem
  simp only [cut] at mem
  exact plain c ((List.takeWhile_sublist _).subset mem)

theorem ofFile_route (route : IsRoute cs) (filled : cs ≠ [])
    (folder : base.path = .steps (done ++ [[]])) :
    ofFile base cs = .ok (withTail base (pathFrom .file done cs) ⟨cs, none, none⟩) := by
  obtain ⟨c, r, rfl⟩ := List.exists_cons_of_ne_nil filled
  obtain ⟨slash, backslash, hash, question⟩ := route.first_ne
  have other : isSlash .file c = false := by simp [isSlash, slash, backslash]
  -- the last step is empty, hence no drive that would stay
  have back : stepBack .file (done ++ [[]]) = done := by simp [stepBack, isDrive]
  unfold ofFile
  simp only [tail_eq route.plain, other, startsWithDrive_eq_false route.plain, Bool.false_eq_true,
    if_false, Option.getD_some, folder, Path.stepList, back]

theorem relativeTo_route (route : IsRoute cs) (filled : cs ≠ [])
    (folder : base.path = .steps (done ++ [[]])) :
    relativeTo base cs = .ok (withTail base (pathFrom base.kind done cs) ⟨cs, none, none⟩) := by
  obtain ⟨c, r, rfl⟩ := List.exists_cons_of_ne_nil filled
  obtain ⟨slash, backslash, hash, question⟩ := route.first_ne
  unfold relativeTo
  simp only [tail_eq route.plain]
  split
  · next same => cases same
  · next same => exact absurd (List.cons.inj same).1 hash
  · next same => exact absurd (List.cons.inj same).1 question
  · next same => exact absurd (List.cons.inj same).1 slash
  · next c r _ _ _ same =>
    obtain ⟨rfl, rfl⟩ := List.cons.inj same
    rw [if_neg (not_or.mpr ⟨slash, backslash⟩), folder, Path.stepList, List.dropLast_concat]

theorem read_filled_route (route : IsRoute cs) (filled : cs ≠ [])
    (folder : base.path = .steps (done ++ [[]])) :
    read base cs = .ok (withTail base (pathFrom base.kind done cs) ⟨cs, none, none⟩) := by
  rw [read_route route, folder]
  simp only
  split
  · next file => rw [file, ofFile_route route filled folder]
  · exact relativeTo_route route filled folder

/-- A route from a URL with a closed path of steps comes at the end of that path. -/
theorem extends_of_route (route : IsRoute cs) (folder : base.path = .steps (done ++ [[]]))
    (tidy : base.IsTidy) : ∃ v, read base cs = .ok v ∧ v.Extends base cs := by
  by_cases filled : cs = []
  · rw [filled]
    exact extends_of_no_route folder
  · refine ⟨_, read_filled_route route filled folder, rfl, rfl, rfl, ?_⟩
    rw [IsTidy, folder] at tidy
    simp only [withTail]
    rw [pathFrom_route route filled tidy, render_append, render_splitAt, folder, render_append]
    simp [Path.render]

/-- A flat path has no place for routes. -/
theorem read_route_of_flat {text : List Char} (route : IsRoute cs) (flat : base.path = .flat text) :
    read base cs = .error .relativeToFlatBase := by
  rw [read_route route, flat]

end TradingLoad.Url
