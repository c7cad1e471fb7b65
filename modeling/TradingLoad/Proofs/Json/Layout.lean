import TradingLoad.Proofs.Json.Rereading

namespace TradingLoad

open Text

namespace JsonToken

variable {cs rest : List Char} {t : JsonToken} {ts : List JsonToken}

/-- A text of nothing but one token. -/
def IsSpelling (t : JsonToken) (cs : List Char) : Prop := one cs = some (t, [])

/-- Spellings of tokens one after another, with white space around them. After a number comes
nothing with which the number would go on. -/
inductive Laid : List Char → List JsonToken → Prop
  | done {gap : List Char} (blank : ∀ c ∈ gap, isSpace c = true) : Laid gap []
  | token {gap spelling rest : List Char} {t : JsonToken} {ts : List JsonToken}
      (blank : ∀ c ∈ gap, isSpace c = true) (spells : IsSpelling t spelling)
      (ends : ∀ n, t = number n → EndsNumber rest) (more : Laid rest ts) :
      Laid (gap ++ (spelling ++ rest)) (t :: ts)

theorem exists_of_pieces {ps : List Piece} (h : pieces cs = some (ps, rest)) :
    ∃ spelling, cs = spelling ++ rest ∧ ∀ rest', pieces (spelling ++ rest') = some (ps, rest') := by
  fun_induction pieces cs generalizing ps rest with
  | case1 => cases h
  | case2 left =>
    cases h
    exact ⟨['"'], rfl, fun _ => rfl⟩
  | case3 a b c d left ih =>
    simp only [bind, Option.bind_eq_some_iff] at h
    obtain ⟨value, unit, ⟨qs, more⟩, taken, same⟩ := h
    cases same
    obtain ⟨spelling, rfl, again⟩ := ih taken
    refine ⟨'\\' :: 'u' :: a :: b :: c :: d :: spelling, rfl, fun rest' => ?_⟩
    simp [pieces, unit, again]
  | case4 e left other ih =>
    simp only [bind, Option.bind_eq_some_iff] at h
    obtain ⟨value, stands, ⟨qs, more⟩, taken, same⟩ := h
    cases same
    obtain ⟨spelling, rfl, again⟩ := ih taken
    refine ⟨'\\' :: e :: spelling, rfl, fun rest' => ?_⟩
    have short : e ≠ 'u' := by
      rintro rfl
      cases stands
    simp only [List.cons_append]
    rw [pieces, stands, again]
    · rfl
    · intro _ _ _ _ _ same
      exact absurd same short
  | case5 => cases h
  | case6 c left quote unit short plain ih =>
    simp only [bind, Option.bind_eq_some_iff] at h
    obtain ⟨⟨qs, more⟩, taken, same⟩ := h
    cases same
    obtain ⟨spelling, rfl, again⟩ := ih taken
    have slash : c ≠ '\\' := fun same => plain (.inr same)
    refine ⟨c :: spelling, rfl, fun rest' => ?_⟩
    simp only [List.cons_append]
    rw [pieces, if_neg plain, again]
    · rfl
    · exact quote
    · intro _ _ _ _ _ same
      exact absurd same slash
    · intro _ _ same
      exact absurd same slash

theorem spanDigits_eq {ds : List Char} (h : spanDigits cs = (ds, rest)) :
    cs = ds ++ rest ∧ (∀ c ∈ ds, c.isDigit = true) ∧ EndsDigits rest := by
  obtain ⟨rfl, rfl⟩ := Prod.mk.inj h
  refine ⟨List.takeWhile_append_dropWhile.symm, fun c => List.mem_takeWhile_imp, ?_⟩
  intro c first
  have stop := List.head?_dropWhile_not Char.isDigit cs
  rw [first] at stop
  simpa using stop

/-- Digits and a fraction end before this text. -/
def EndsFraction (cs : List Char) : Prop := ∀ c ∈ cs.head?, c.isDigit = false ∧ c ≠ '.'

theorem exists_of_wholePart {ds : List Char} (h : wholePart cs = some (ds, rest)) :
    cs = ds ++ rest ∧ EndsDigits rest ∧ (∃ d ds', ds = d :: ds' ∧ d.isDigit = true) ∧
      ∀ rest', EndsDigits rest' → wholePart (ds ++ rest') = some (ds, rest') := by
  unfold wholePart at h
  split at h
  · cases h
  · cases h
  · next ds' left some single spanned =>
    cases h
    obtain ⟨rfl, all, ends⟩ := spanDigits_eq spanned
    refine ⟨rfl, ends, ?_, fun rest' ends' => ?_⟩
    · cases ds with
      | nil => exact absurd rfl some
      | cons d ds' => exact ⟨d, ds', rfl, all d List.mem_cons_self⟩
    · unfold wholePart
      rw [spanDigits_append all ends']
      split
      · next none => exact absurd (congrArg Prod.fst none) some
      · next d ds'' rest'' zero => exact absurd (congrArg Prod.fst zero) (single d ds'')
      · next same => rw [← same]

theorem exists_of_fractionPart {ds : List Char} (h : fractionPart cs = some (ds, rest))
    (starts : EndsDigits cs) :
    ∃ spelling, cs = spelling ++ rest ∧ EndsDigits rest ∧ ∀ rest', EndsFraction rest' →
      EndsDigits (spelling ++ rest') ∧ fractionPart (spelling ++ rest') = some (ds, rest') := by
  unfold fractionPart at h
  split at h
  · next cs =>
    split at h
    · cases h
    · next ds' left some spanned =>
      cases h
      obtain ⟨rfl, all, ends⟩ := spanDigits_eq spanned
      refine ⟨'.' :: ds, rfl, ends, fun rest' ends' => ⟨endsDigits_cons rfl, ?_⟩⟩
      have again := spanDigits_append all fun c first => (ends' c first).1
      simp only [List.cons_append, fractionPart]
      rw [again]
      split
      · next none => exact absurd (congrArg Prod.fst none) some
      · next same => rw [← same]
  · next none =>
    cases h
    refine ⟨[], rfl, starts, fun rest' stops => ⟨fun c first => (stops c first).1, ?_⟩⟩
    change fractionPart rest' = some ([], rest')
    unfold fractionPart
    split
    · exact absurd rfl (stops '.' rfl).2
    · rfl

/-- A sign in front of digits, where there is one. -/
def sign (cs : List Char) : Bool × List Char :=
  match cs with
  | '-' :: r => (true, r)
  | '+' :: r => (false, r)
  | r => (false, r)

theorem sign_of_ne {c : Char} (minus : c ≠ '-') (plus : c ≠ '+') :
    sign (c :: cs) = (false, c :: cs) := by
  simp [sign, minus, plus]

theorem sign_of_isDigit {d : Char} {ds : List Char} (digit : d.isDigit = true) :
    sign (d :: ds) = (false, d :: ds) := by
  refine sign_of_ne ?_ ?_ <;>
    · rintro rfl
      cases digit

theorem exists_of_sign (cs : List Char) :
    ∃ spelling, cs = spelling ++ (sign cs).2 ∧ ∀ d ds, d.isDigit = true →
      sign (spelling ++ d :: ds) = ((sign cs).1, d :: ds) := by
  cases cs with
  | nil => exact ⟨[], rfl, fun _ _ => sign_of_isDigit⟩
  | cons c cs =>
    by_cases minus : c = '-'
    · subst minus
      exact ⟨['-'], rfl, fun _ _ _ => rfl⟩
    · by_cases plus : c = '+'
      · subst plus
        exact ⟨['+'], rfl, fun _ _ _ => rfl⟩
      · rw [sign_of_ne minus plus]
        exact ⟨[], rfl, fun _ _ => sign_of_isDigit⟩

theorem exponentPart_cons_of_isE {c : Char} (letter : c = 'e' ∨ c = 'E') :
    exponentPart (c :: cs) =
      match spanDigits (sign cs).2 with
      | ([], _) => none
      | (ds, rest) =>
        some (some (if (sign cs).1 then -(digitsValue ds : Int) else digitsValue ds), rest) := by
  unfold exponentPart sign
  exact if_pos letter

theorem exists_of_exponentPart {e : Option Int} (h : exponentPart cs = some (e, rest))
    (starts : EndsDigits cs) :
    ∃ spelling, cs = spelling ++ rest ∧ EndsDigits rest ∧ ∀ rest', EndsNumber rest' →
      EndsFraction (spelling ++ rest') ∧ exponentPart (spelling ++ rest') = some (e, rest') := by
  have blank (same : some ((none : Option Int), cs) = some (e, rest)) :
      ∃ spelling, cs = spelling ++ rest ∧ EndsDigits rest ∧ ∀ rest', EndsNumber rest' →
        EndsFraction (spelling ++ rest') ∧ exponentPart (spelling ++ rest') = some (e, rest') := by
    cases same
    refine ⟨[], rfl, starts, fun rest' ends => ⟨fun c first => ?_, ends.exponentPart_eq⟩⟩
    exact ⟨(ends c first).1, (ends c first).2.1⟩
  cases cs with
  | nil => exact blank h
  | cons c cs =>
    by_cases letter : c = 'e' ∨ c = 'E'
    · rw [exponentPart_cons_of_isE letter] at h
      split at h
      · cases h
      · next ds left some spanned =>
        cases h
        obtain ⟨same, all, ends⟩ := spanDigits_eq spanned
        obtain ⟨spelling, form, again⟩ := exists_of_sign cs
        obtain ⟨d, ds', rfl⟩ := List.exists_cons_of_ne_nil some
        refine ⟨c :: spelling ++ d :: ds', ?_, ends, fun rest' ends' => ⟨?_, ?_⟩⟩
        · rw [List.cons_append, List.cons_append, List.append_assoc, ← same, ← form]
        · intro c' first
          obtain rfl : c = c' := by simpa using first
          rcases letter with rfl | rfl <;> decide
        · have signed := again d (ds' ++ rest') (all d List.mem_cons_self)
          have spannedAgain := spanDigits_append all ends'.endsDigits
          rw [List.cons_append, List.cons_append, List.append_assoc,
            exponentPart_cons_of_isE letter, List.cons_append, signed]
          simp only
          rw [← List.cons_append, spannedAgain]
    · simp only [exponentPart, if_neg letter] at h
      exact blank h

theorem exists_of_numberBody {negative : Bool} {n : JsonNumber}
    (h : numberBody negative cs = some (n, rest)) :
    ∃ d spelling, cs = d :: spelling ++ rest ∧ d.isDigit = true ∧ EndsDigits rest ∧
      ∀ rest', EndsNumber rest' →
        numberBody negative (d :: spelling ++ rest') = some (n, rest') := by
  simp only [numberBody, bind, Option.bind_eq_some_iff] at h
  obtain ⟨⟨whole, left⟩, taken, ⟨fraction, left'⟩, taken', ⟨exponent, left''⟩, taken'', same⟩ := h
  obtain ⟨rfl, ends, ⟨d, ds, rfl, digit⟩, wholeAgain⟩ := exists_of_wholePart taken
  obtain ⟨point, rfl, ends', fractionAgain⟩ := exists_of_fractionPart taken' ends
  obtain ⟨power, rfl, ends'', exponentAgain⟩ := exists_of_exponentPart taken'' ends'
  obtain rfl : left'' = rest := by split at same <;> cases same <;> rfl
  refine ⟨d, ds ++ (point ++ power), by simp, digit, ends'', fun rest' ends => ?_⟩
  obtain ⟨here, e⟩ := exponentAgain rest' ends
  obtain ⟨there, f⟩ := fractionAgain (power ++ rest') here
  have w := wholeAgain (point ++ (power ++ rest')) there
  have form : d :: (ds ++ (point ++ power)) ++ rest' = d :: ds ++ (point ++ (power ++ rest')) := by
    simp
  rw [form]
  simp only [numberBody, w, f, e, bind, Option.bind_some] at same ⊢
  split at same
  · next integer =>
    rw [if_pos integer]
    cases same
    rfl
  · next fraction =>
    rw [if_neg fraction]
    cases same
    rfl

/-- A token is read alike in front of any other text, and no digit comes after a number. -/
theorem exists_of_one (h : one cs = some (t, rest)) :
    ∃ spelling, cs = spelling ++ rest ∧ (∀ n, t = number n → EndsDigits rest) ∧
      ∀ rest', (∀ n, t = number n → EndsNumber rest') →
        one (spelling ++ rest') = some (t, rest') := by
  unfold one at h
  split at h
  case h_1 => cases h
  case h_11 r =>
    obtain ⟨⟨ps, left⟩, taken, same⟩ := Option.map_eq_some_iff.mp h
    cases same
    obtain ⟨spelling, rfl, again⟩ := exists_of_pieces taken
    refine ⟨'"' :: spelling, rfl, nofun, fun rest' _ => ?_⟩
    rw [List.cons_append, one_quote, again]
    rfl
  case h_12 r =>
    obtain ⟨⟨n, left⟩, taken, same⟩ := Option.map_eq_some_iff.mp h
    cases same
    obtain ⟨d, spelling, rfl, -, ends, again⟩ := exists_of_numberBody taken
    refine ⟨'-' :: d :: spelling, rfl, fun _ _ => ends, fun rest' ends' => ?_⟩
    rw [List.cons_append, one_minus, again rest' (ends' n rfl)]
    rfl
  case h_13 c r _ _ _ _ _ _ _ _ _ _ _ =>
    obtain ⟨⟨n, left⟩, taken, same⟩ := Option.map_eq_some_iff.mp h
    cases same
    obtain ⟨d, spelling, form, digit, ends, again⟩ := exists_of_numberBody taken
    refine ⟨d :: spelling, form, fun _ _ => ends, fun rest' ends' => ?_⟩
    rw [List.cons_append, one_of_isDigit digit, ← List.cons_append, again rest' (ends' n rfl)]
    rfl
  all_goals cases h
  · exact ⟨['{'], rfl, nofun, fun _ _ => rfl⟩
  · exact ⟨['}'], rfl, nofun, fun _ _ => rfl⟩
  · exact ⟨['['], rfl, nofun, fun _ _ => rfl⟩
  · exact ⟨[']'], rfl, nofun, fun _ _ => rfl⟩
  · exact ⟨[':'], rfl, nofun, fun _ _ => rfl⟩
  · exact ⟨[','], rfl, nofun, fun _ _ => rfl⟩
  · exact ⟨"null".toList, rfl, nofun, fun _ _ => rfl⟩
  · exact ⟨"true".toList, rfl, nofun, fun _ _ => rfl⟩
  · exact ⟨"false".toList, rfl, nofun, fun _ _ => rfl⟩

theorem IsSpelling.one_append (spells : IsSpelling t cs)
    (ends : ∀ n, t = number n → EndsNumber rest) : one (cs ++ rest) = some (t, rest) := by
  obtain ⟨spelling, same, -, again⟩ := exists_of_one spells
  rw [List.append_nil] at same
  rw [same]
  exact again rest ends

theorem exists_spelling (h : one cs = some (t, rest)) :
    ∃ spelling, cs = spelling ++ rest ∧ IsSpelling t spelling ∧
      ∀ n, t = number n → EndsDigits rest := by
  obtain ⟨spelling, same, ends, again⟩ := exists_of_one h
  have alone := again [] fun _ _ => endsNumber_nil
  rw [List.append_nil] at alone
  exact ⟨spelling, same, alone, ends⟩

theorem Spells.gap {gap : List Char} (blank : ∀ c ∈ gap, isSpace c = true) (h : Spells cs ts) :
    Spells (gap ++ cs) ts := by
  have skipped : (gap ++ cs).dropWhile isSpace = cs.dropWhile isSpace :=
    List.dropWhile_append_of_pos blank
  cases h with
  | done none => exact .done (skipped.trans none)
  | token first more => exact .token (by rwa [skipped]) more

/-- No token starts with a point or the letter of an exponent. -/
theorem Spells.ne_of_head {c : Char} (h : Spells (c :: cs) ts) : c ≠ '.' ∧ c ≠ 'e' ∧ c ≠ 'E' := by
  refine ⟨?_, ?_, ?_⟩ <;>
    · rintro rfl
      cases h with
      | done blank => cases blank
      | token first => cases first

/-- What follows a number in a text does not go on with it. -/
theorem Spells.endsNumber (h : Spells cs ts) (ends : EndsDigits cs) : EndsNumber cs := by
  intro c head
  cases cs with
  | nil => cases head
  | cons d cs =>
    obtain rfl : d = c := by simpa using head
    exact ⟨ends d rfl, h.ne_of_head⟩

theorem laid_iff_spells : Laid cs ts ↔ Spells cs ts := by
  constructor
  · intro laid
    induction laid with
    | @done gap blank => exact .done (List.dropWhile_eq_nil_iff.mpr blank)
    | token blank spells ends more ih => exact .gap blank (.cons (spells.one_append ends) ih)
  · intro spelt
    induction spelt with
    | @done cs blank => exact .done (List.dropWhile_eq_nil_iff.mp blank)
    | @token cs rest t ts first more ih =>
      obtain ⟨spelling, form, spells, ends⟩ := exists_spelling first
      have blank : ∀ c ∈ cs.takeWhile isSpace, isSpace c = true := fun c => List.mem_takeWhile_imp
      have laid := Laid.token blank spells (fun n number => more.endsNumber (ends n number)) ih
      rwa [← form, List.takeWhile_append_dropWhile] at laid

theorem Laid.gap {gap : List Char} (blank : ∀ c ∈ gap, isSpace c = true) (h : Laid cs ts) :
    Laid (gap ++ cs) ts := laid_iff_spells.mpr (.gap blank (laid_iff_spells.mp h))

theorem endsNumber_of_isSpace {c : Char} (space : isSpace c = true) : EndsNumber (c :: cs) := by
  refine endsNumber_cons ?_
  simp only [isSpace, Bool.or_eq_true, decide_eq_true_eq] at space
  rcases space with ((rfl | rfl) | rfl) | rfl <;> decide

/-- White space keeps the tokens before it apart from those after it. -/
theorem Laid.append_gap {gap ds : List Char} {us : List JsonToken} (h : Laid cs ts)
    (blank : ∀ c ∈ gap, isSpace c = true) (some : gap ≠ []) (h' : Laid ds us) :
    Laid (cs ++ (gap ++ ds)) (ts ++ us) := by
  induction h with
  | done blank' => exact (h'.gap blank).gap blank'
  | @token before spelling rest t ts blank' spells ends more ih =>
    have form : before ++ (spelling ++ rest) ++ (gap ++ ds) =
        before ++ (spelling ++ (rest ++ (gap ++ ds))) := by simp
    rw [form]
    refine .token blank' spells (fun n number => ?_) ih
    cases rest with
    | cons c rest => exact endsNumber_cons (ends n number c rfl)
    | nil =>
      obtain ⟨c, gap, rfl⟩ := List.exists_cons_of_ne_nil some
      exact endsNumber_of_isSpace (blank c List.mem_cons_self)

end JsonToken

namespace JsonValue

open JsonToken (Laid openBrace closeBrace openBracket closeBracket colon comma)

theorem itemTokens_cons (v : JsonValue) {vs : List JsonValue} (some : vs ≠ []) :
    itemTokens (v :: vs) = tokens v ++ comma :: itemTokens vs := by
  cases vs with
  | nil => exact absurd rfl some
  | cons w vs => rfl

theorem memberTokens_cons (name : JsonText) (v : JsonValue) {ms : List (JsonText × JsonValue)}
    (some : ms ≠ []) :
    memberTokens ((name, v) :: ms) =
      .text name :: colon :: tokens v ++ comma :: memberTokens ms := by
  cases ms with
  | nil => exact absurd rfl some
  | cons m ms => rfl

/-- Whatever is read takes its own tokens, and there is an item or a member where one is due. -/
theorem tokens_of_read (depth : Nat) :
    (∀ {ts v r}, readFrom depth ts = some (v, r) → ts = tokens v ++ r) ∧
    (∀ {ts vs r}, readItems depth ts = some (vs, r) → ts = itemTokens vs ++ r ∧ vs ≠ []) ∧
    (∀ {ts ms r}, readMembers depth ts = some (ms, r) → ts = memberTokens ms ++ r ∧ ms ≠ []) := by
  induction depth with
  | zero =>
    refine ⟨fun h => ?_, fun h => ?_, fun h => ?_⟩ <;> cases h
  | succ depth ih =>
    obtain ⟨value, items, members⟩ := ih
    refine ⟨fun {ts v r} h => ?_, fun {ts vs r} h => ?_, fun {ts ms r} h => ?_⟩
    · unfold readFrom at h
      split at h
      case h_6 ts _ =>
        obtain ⟨⟨vs, left⟩, read, same⟩ := Option.map_eq_some_iff.mp h
        cases same
        rw [(items read).1]
        rfl
      case h_8 ts _ =>
        obtain ⟨⟨ms, left⟩, read, same⟩ := Option.map_eq_some_iff.mp h
        cases same
        rw [(members read).1]
        rfl
      all_goals cases h
      all_goals rfl
    · simp only [readItems, bind, Option.bind_eq_some_iff] at h
      obtain ⟨⟨item, left⟩, read, h⟩ := h
      have here := value read
      split at h
      · next r' last =>
        cases h
        refine ⟨?_, List.cons_ne_nil _ _⟩
        rw [here, show left = closeBracket :: r from last]
        simp [itemTokens]
      · next r' another =>
        obtain ⟨⟨vs', left'⟩, more, same⟩ := Option.bind_eq_some_iff.mp h
        cases same
        obtain ⟨later, some⟩ := items more
        refine ⟨?_, List.cons_ne_nil _ _⟩
        rw [here, show left = comma :: r' from another, later, itemTokens_cons item some]
        simp
      · cases h
    · unfold readMembers at h
      split at h
      · next name ts =>
        simp only [bind, Option.bind_eq_some_iff] at h
        obtain ⟨⟨v, left⟩, read, h⟩ := h
        have here := value read
        split at h
        · next r' last =>
          cases h
          refine ⟨?_, List.cons_ne_nil _ _⟩
          rw [here, show left = closeBrace :: r from last]
          simp [memberTokens]
        · next r' another =>
          obtain ⟨⟨ms', left'⟩, more, same⟩ := Option.bind_eq_some_iff.mp h
          cases same
          obtain ⟨later, some⟩ := members more
          refine ⟨?_, List.cons_ne_nil _ _⟩
          rw [here, show left = comma :: r' from another, later, memberTokens_cons name v some]
          simp
        · cases h
      · cases h

theorem ofTokens?_eq_some_iff {ts : List JsonToken} {v : JsonValue} :
    ofTokens? ts = some v ↔ ts = tokens v := by
  constructor
  · intro h
    unfold ofTokens? at h
    split at h
    · next w read =>
      cases h
      rw [(tokens_of_read _).1 read, List.append_nil]
    · cases h
  · rintro rfl
    exact ofTokens?_tokens v

/-- The tokens of a value, one after another, with any white space around them. -/
def IsTextOf (v : JsonValue) (s : String) : Prop := Laid s.toList (tokens v)

/-- The texts of a value are those that have its tokens. -/
theorem isTextOf_iff {s : String} {v : JsonValue} :
    IsTextOf v s ↔ JsonToken.list s.toList = some (tokens v) := by
  rw [IsTextOf, JsonToken.laid_iff_spells, JsonToken.list_eq_some_iff]

instance (v : JsonValue) (s : String) : Decidable (IsTextOf v s) := decidable_of_iff' _ isTextOf_iff

/-- A text has a value exactly if it is a text of that value. -/
theorem parse?_eq_some_iff {s : String} {v : JsonValue} : parse? s = some v ↔ IsTextOf v s := by
  simp only [parse?, Option.bind_eq_some_iff, ofTokens?_eq_some_iff, exists_eq_right, isTextOf_iff]

end JsonValue

end TradingLoad
