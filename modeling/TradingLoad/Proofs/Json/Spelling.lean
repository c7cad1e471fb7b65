import TradingLoad.Json.Token
import TradingLoad.Json.Writer
import TradingLoad.Proofs.Text.Digits

namespace TradingLoad

open Text

namespace JsonToken

/-- A text spells tokens, with white space around them. -/
inductive Spells : List Char → List JsonToken → Prop
  | done {cs : List Char} (blank : cs.dropWhile isSpace = []) : Spells cs []
  | token {cs rest : List Char} {t : JsonToken} {ts : List JsonToken}
      (first : one (cs.dropWhile isSpace) = some (t, rest)) (more : Spells rest ts) :
      Spells cs (t :: ts)

variable {cs rest : List Char} {t : JsonToken} {ts : List JsonToken}

theorem length_pieces {ps : List Piece} (h : pieces cs = some (ps, rest)) :
    rest.length < cs.length := by
  fun_induction pieces cs generalizing ps rest with
  | case1 => cases h
  | case2 left =>
    cases h
    exact Nat.lt_succ_self _
  | case3 a b c d left ih =>
    simp only [bind, Option.bind_eq_some_iff] at h
    obtain ⟨value, -, ⟨qs, more⟩, taken, same⟩ := h
    cases same
    have less := ih taken
    simp only [List.length_cons]
    omega
  | case4 e left _ ih =>
    simp only [bind, Option.bind_eq_some_iff] at h
    obtain ⟨value, -, ⟨qs, more⟩, taken, same⟩ := h
    cases same
    have less := ih taken
    simp only [List.length_cons]
    omega
  | case5 => cases h
  | case6 c left _ _ _ _ ih =>
    simp only [bind, Option.bind_eq_some_iff] at h
    obtain ⟨⟨qs, more⟩, taken, same⟩ := h
    cases same
    exact Nat.lt_succ_of_lt (ih taken)

theorem length_spanDigits {ds : List Char} (h : spanDigits cs = (ds, rest)) :
    ds.length + rest.length = cs.length := by
  have whole : ds ++ rest = cs := by
    obtain ⟨rfl, rfl⟩ := Prod.mk.inj h
    exact List.takeWhile_append_dropWhile
  rw [← List.length_append, whole]

theorem length_wholePart {ds : List Char} (h : wholePart cs = some (ds, rest)) :
    rest.length < cs.length := by
  unfold wholePart at h
  split at h
  · cases h
  · cases h
  · next ds' left some _ spanned =>
    cases h
    have sum := length_spanDigits spanned
    have more : 0 < ds.length := List.length_pos_iff.mpr some
    omega

theorem length_fractionPart {ds : List Char} (h : fractionPart cs = some (ds, rest)) :
    rest.length ≤ cs.length := by
  unfold fractionPart at h
  split at h
  · split at h
    · cases h
    · next spanned =>
      cases h
      have sum := length_spanDigits spanned
      simp only [List.length_cons]
      omega
  · cases h
    exact Nat.le_refl _

theorem length_exponentPart {e : Option Int} (h : exponentPart cs = some (e, rest)) :
    rest.length ≤ cs.length := by
  unfold exponentPart at h
  split at h
  · next c left =>
    split at h
    · simp only at h
      split at h
      · cases h
      · next spanned =>
        cases h
        have sum := length_spanDigits spanned
        split at sum <;> simp only [List.length_cons] at sum ⊢ <;> omega
    · cases h
      exact Nat.le_refl _
  · cases h
    exact Nat.le_refl _

theorem length_numberBody {negative : Bool} {n : JsonNumber}
    (h : numberBody negative cs = some (n, rest)) : rest.length < cs.length := by
  simp only [numberBody, bind, Option.bind_eq_some_iff] at h
  obtain ⟨⟨whole, left⟩, taken, ⟨fraction, left'⟩, taken', ⟨exponent, left''⟩, taken'', same⟩ := h
  have last : left'' = rest := by
    split at same <;> cases same <;> rfl
  calc rest.length ≤ left'.length := last ▸ length_exponentPart taken''
    _ ≤ left.length := length_fractionPart taken'
    _ < cs.length := length_wholePart taken

theorem length_one (h : one cs = some (t, rest)) : rest.length < cs.length := by
  unfold one at h
  split at h
  case h_1 => cases h
  case h_11 r =>
    obtain ⟨⟨ps, left⟩, taken, same⟩ := Option.map_eq_some_iff.mp h
    cases same
    exact Nat.lt_succ_of_lt (length_pieces taken)
  case h_12 r =>
    obtain ⟨⟨n, left⟩, taken, same⟩ := Option.map_eq_some_iff.mp h
    cases same
    exact Nat.lt_succ_of_lt (length_numberBody taken)
  case h_13 c r _ _ _ _ _ _ _ _ _ _ _ =>
    obtain ⟨⟨n, left⟩, taken, same⟩ := Option.map_eq_some_iff.mp h
    cases same
    exact length_numberBody taken
  all_goals
    cases h
    simp only [List.length_cons]
    omega

theorem Spells.length_le (h : Spells cs ts) : ts.length ≤ cs.length := by
  induction h with
  | done => exact Nat.zero_le _
  | @token cs rest t ts first more ih =>
    have less := length_one first
    have kept : (cs.dropWhile isSpace).length ≤ cs.length := (List.dropWhile_sublist _).length_le
    simp only [List.length_cons]
    omega

theorem spells_of_blank (blank : cs.dropWhile isSpace = []) : Spells cs ts ↔ ts = [] := by
  constructor
  · intro h
    cases h with
    | done => rfl
    | token first =>
      rw [blank] at first
      cases first
  · rintro rfl
    exact .done blank

theorem spells_of_start {c : Char} {r : List Char} (start : cs.dropWhile isSpace = c :: r) :
    Spells cs ts ↔
      ∃ t rest ts', one (c :: r) = some (t, rest) ∧ Spells rest ts' ∧ ts = t :: ts' := by
  constructor
  · intro h
    cases h with
    | done blank =>
      rw [blank] at start
      cases start
    | @token _ rest t ts first more =>
      rw [start] at first
      exact ⟨t, rest, ts, first, more, rfl⟩
  · rintro ⟨t, rest, ts', first, more, rfl⟩
    exact .token (by rw [start]; exact first) more

theorem listFrom_eq_some_iff {limit : Nat} :
    listFrom limit cs = some ts ↔ Spells cs ts ∧ ts.length < limit := by
  induction limit generalizing cs ts with
  | zero => simp [listFrom]
  | succ limit ih =>
    unfold listFrom
    split
    · next blank =>
      rw [spells_of_blank blank]
      constructor
      · intro h
        cases h
        exact ⟨rfl, Nat.succ_pos _⟩
      · rintro ⟨rfl, -⟩
        rfl
    · next c r start =>
      rw [spells_of_start start]
      simp only [bind, Option.bind_eq_some_iff, ih]
      constructor
      · rintro ⟨⟨t, rest⟩, first, ts', ⟨more, less⟩, same⟩
        cases same
        exact ⟨⟨t, rest, ts', first, more, rfl⟩, Nat.succ_lt_succ less⟩
      · rintro ⟨⟨t, rest, ts', first, more, rfl⟩, less⟩
        exact ⟨(t, rest), first, ts', ⟨more, Nat.lt_of_succ_lt_succ less⟩, rfl⟩

/-- The tokens are found, as there are no more of them than characters. -/
theorem list_eq_some_iff : list cs = some ts ↔ Spells cs ts := by
  unfold list
  rw [listFrom_eq_some_iff]
  constructor
  · rintro ⟨spells, -⟩
    exact spells
  · intro spells
    exact ⟨spells, Nat.lt_succ_of_le spells.length_le⟩

theorem one_of_isSpace {c : Char} (space : isSpace c = true) : one (c :: cs) = none := by
  simp only [isSpace, Bool.or_eq_true, decide_eq_true_eq] at space
  rcases space with ((rfl | rfl) | rfl) | rfl <;> rfl

/-- A token at the very start of a text. -/
theorem Spells.cons (first : one cs = some (t, rest)) (more : Spells rest ts) :
    Spells cs (t :: ts) := by
  refine .token ?_ more
  cases cs with
  | nil => cases first
  | cons c cs =>
    have start : isSpace c = false := by
      by_contra space
      rw [one_of_isSpace (Bool.of_not_eq_false space)] at first
      cases first
    rwa [List.dropWhile_cons_of_neg (Bool.not_eq_true _ ▸ start)]

theorem assemble_unit {u : Nat} (low : u < 0xD800) (ps : List Piece) :
    assemble (.unit u :: ps) = (assemble ps).map (Char.ofNat u :: ·) := by
  have high : isHighSurrogate u = false := by simp [isHighSurrogate]; omega
  have low : isLowSurrogate u = false := by simp [isLowSurrogate]; omega
  rcases ps with - | ⟨c | v, ps⟩ <;> simp [assemble, high, low]

theorem hexValue?_hexDigit : ∀ n < 16, hexValue? (JsonValue.hexDigit n) = some n := by decide

theorem hexUnit?_of_lt {n : Nat} (small : n < 32) :
    hexUnit? '0' '0' (JsonValue.hexDigit (n / 16)) (JsonValue.hexDigit (n % 16)) = some n := by
  have high := hexValue?_hexDigit (n / 16) (by omega)
  have low := hexValue?_hexDigit (n % 16) (by omega)
  have zero : hexValue? '0' = some 0 := rfl
  simp only [hexUnit?, high, low, zero, bind, Option.bind_some, pure, Option.some.injEq]
  omega

/-- A character is written as a short escape, as the number of its code unit, or as itself. -/
theorem escapeChar_cases (c : Char) :
    (∃ e, JsonValue.escapeChar c = ['\\', e] ∧ e ≠ 'u' ∧ escaped? e = some c) ∨
    (c.toNat < 32 ∧ JsonValue.escapeChar c =
      ['\\', 'u', '0', '0', JsonValue.hexDigit (c.toNat / 16), JsonValue.hexDigit (c.toNat % 16)]) ∨
    (32 ≤ c.toNat ∧ c ≠ '"' ∧ c ≠ '\\' ∧ JsonValue.escapeChar c = [c]) := by
  unfold JsonValue.escapeChar
  split_ifs with quote backslash back form line carriage tab control
  · exact .inl ⟨'"', rfl, by decide, by rw [quote]; rfl⟩
  · exact .inl ⟨'\\', rfl, by decide, by rw [backslash]; rfl⟩
  · exact .inl ⟨'b', rfl, by decide, by rw [back]; rfl⟩
  · exact .inl ⟨'f', rfl, by decide, by rw [form]; rfl⟩
  · exact .inl ⟨'n', rfl, by decide, by rw [line]; rfl⟩
  · exact .inl ⟨'r', rfl, by decide, by rw [carriage]; rfl⟩
  · exact .inl ⟨'t', rfl, by decide, by rw [tab]; rfl⟩
  · exact .inr (.inl ⟨control, rfl⟩)
  · exact .inr (.inr ⟨Nat.le_of_not_lt control, quote, backslash, rfl⟩)

/-- A written character is read as one part, which stands for the character. -/
theorem pieces_escapeChar (c : Char) (cs : List Char) :
    ∃ p, pieces (JsonValue.escapeChar c ++ cs) = (pieces cs).map (fun q => (p :: q.1, q.2)) ∧
      ∀ ps, assemble (p :: ps) = (assemble ps).map (c :: ·) := by
  rcases escapeChar_cases c with
    ⟨e, form, short, stands⟩ | ⟨small, form⟩ | ⟨large, quote, slash, form⟩
  · refine ⟨.char c, ?_, fun _ => rfl⟩
    rw [form]
    simp only [List.cons_append, List.nil_append]
    rw [pieces, stands]
    · rw [Option.map_eq_bind]
      rfl
    · intro _ _ _ _ _ h
      exact absurd h short
  · refine ⟨.unit c.toNat, ?_, fun ps => ?_⟩
    · rw [form]
      simp only [List.cons_append, List.nil_append]
      rw [pieces, hexUnit?_of_lt small, Option.map_eq_bind]
      rfl
    · rw [assemble_unit (by omega), Char.ofNat_toNat]
  · refine ⟨.char c, ?_, fun _ => rfl⟩
    rw [form]
    simp only [List.cons_append, List.nil_append]
    rw [pieces, if_neg (by simp [slash]; omega), Option.map_eq_bind]
    · rfl
    · exact quote
    · intro _ _ _ _ _ h
      exact absurd h slash
    · intro _ _ h
      exact absurd h slash

theorem pieces_flatMap_escapeChar (s : List Char) (cs : List Char) :
    ∃ ps, pieces (s.flatMap JsonValue.escapeChar ++ '"' :: cs) = some (ps, cs) ∧
      assemble ps = some s := by
  induction s with
  | nil => exact ⟨[], by simp [pieces], rfl⟩
  | cons c s ih =>
    obtain ⟨ps, read, stands⟩ := ih
    obtain ⟨p, reads, stand⟩ := pieces_escapeChar c (s.flatMap JsonValue.escapeChar ++ '"' :: cs)
    refine ⟨p :: ps, ?_, ?_⟩
    · rw [List.flatMap_cons, List.append_assoc, reads, read]
      rfl
    · rw [stand, stands]
      rfl

theorem one_quote (cs : List Char) :
    one ('"' :: cs) = (pieces cs).map fun p => (text ((assemble p.1).map String.ofList), p.2) := rfl

theorem one_writeText (t : JsonText) (cs : List Char) :
    one (JsonValue.writeText t ++ cs) = some (text t, cs) := by
  cases t with
  | none =>
    have form : JsonValue.writeText none = ['"', '\\', 'u', 'd', '8', '0', '0', '"'] := rfl
    have half : hexUnit? 'd' '8' '0' '0' = some 0xD800 := rfl
    have lone : assemble [.unit 0xD800] = none := rfl
    simp only [form, List.cons_append, List.nil_append, one_quote, pieces, half, bind, pure,
      Option.bind_some, Option.map_some, lone, Option.map_none]
  | some s =>
    obtain ⟨ps, read, stands⟩ := pieces_flatMap_escapeChar s.toList cs
    unfold JsonValue.writeText
    rw [List.append_assoc, List.cons_append, one_quote, List.cons_append, List.nil_append, read]
    simp [stands]

/-- A number ends before this text. -/
def EndsNumber (cs : List Char) : Prop :=
  ∀ c ∈ cs.head?, c.isDigit = false ∧ c ≠ '.' ∧ c ≠ 'e' ∧ c ≠ 'E'

theorem endsNumber_nil : EndsNumber [] := by
  intro c first
  cases first

theorem endsNumber_cons {c : Char} (h : c.isDigit = false ∧ c ≠ '.' ∧ c ≠ 'e' ∧ c ≠ 'E') :
    EndsNumber (c :: cs) := by
  intro d first
  obtain rfl : c = d := by simpa using first
  exact h

theorem EndsNumber.endsDigits (h : EndsNumber cs) : EndsDigits cs := fun c first => (h c first).1

theorem EndsNumber.fractionPart_eq (h : EndsNumber cs) : fractionPart cs = some ([], cs) := by
  unfold fractionPart
  split
  · next cs => exact absurd rfl (h '.' rfl).2.1
  · rfl

theorem EndsNumber.exponentPart_eq (h : EndsNumber cs) : exponentPart cs = some (none, cs) := by
  unfold exponentPart
  split
  · next c cs =>
    obtain ⟨-, -, small, capital⟩ := h c rfl
    rw [if_neg (not_or.mpr ⟨small, capital⟩)]
  · rfl

theorem exists_digits_eq_cons (n : Nat) : ∃ d ds, digits n = d :: ds ∧ d.isDigit = true := by
  obtain ⟨d, ds, form⟩ := List.exists_cons_of_ne_nil (digits_ne_nil n)
  refine ⟨d, ds, form, isDigit_of_mem_digits (n := n) ?_⟩
  rw [form]
  exact List.mem_cons_self

theorem wholePart_digits (n : Nat) (ends : EndsDigits cs) :
    wholePart (digits n ++ cs) = some (digits n, cs) := by
  unfold wholePart
  rw [spanDigits_append (fun _ => isDigit_of_mem_digits) ends]
  split
  · next none => exact absurd (congrArg Prod.fst none) (digits_ne_nil n)
  · next d ds rest zero =>
    have more := eq_nil_of_zero_first (congrArg Prod.fst zero)
    cases more
  · next same => rw [← same]

/-- A digit is no sign. -/
theorem exponentPart_digits (n : Nat) (ends : EndsDigits cs) :
    exponentPart ('e' :: (digits n ++ cs)) = some (some (n : Int), cs) := by
  obtain ⟨d, ds, form, digit⟩ := exists_digits_eq_cons n
  have spanned : spanDigits (d :: (ds ++ cs)) = (d :: ds, cs) := by
    rw [← List.cons_append, ← form]
    exact spanDigits_append (fun _ => isDigit_of_mem_digits) ends
  have value : digitsValue (d :: ds) = n := form ▸ digitsValue_digits n
  have minus : d ≠ '-' := by
    rintro rfl
    cases digit
  have plus : d ≠ '+' := by
    rintro rfl
    cases digit
  rw [form, List.cons_append]
  simp [exponentPart, minus, plus, spanned, value]

theorem exponentPart_minus_digits (n : Nat) (ends : EndsDigits cs) :
    exponentPart ('e' :: '-' :: (digits n ++ cs)) = some (some (-(n : Int)), cs) := by
  obtain ⟨d, ds, form, -⟩ := exists_digits_eq_cons n
  have spanned : spanDigits (digits n ++ cs) = (d :: ds, cs) := by
    rw [← form]
    exact spanDigits_append (fun _ => isDigit_of_mem_digits) ends
  have value : digitsValue (d :: ds) = n := form ▸ digitsValue_digits n
  simp [exponentPart, spanned, value]

theorem exponentPart_signedDigits (e : Int) (ends : EndsDigits cs) :
    exponentPart ('e' :: (signedDigits e ++ cs)) = some (some e, cs) := by
  unfold signedDigits
  split
  · have value : -(e.natAbs : Int) = e := by omega
    rw [List.cons_append, exponentPart_minus_digits e.natAbs ends, value]
  · have value : (e.natAbs : Int) = e := by omega
    rw [exponentPart_digits e.natAbs ends, value]

theorem numberBody_fraction (negative : Bool) (n : Nat) (e : Int) (ends : EndsDigits cs) :
    numberBody negative (digits n ++ 'e' :: (signedDigits e ++ cs)) =
      some (.fraction negative n e, cs) := by
  have whole : wholePart (digits n ++ 'e' :: (signedDigits e ++ cs)) =
      some (digits n, 'e' :: (signedDigits e ++ cs)) :=
    wholePart_digits n (endsDigits_cons rfl)
  have fraction : fractionPart ('e' :: (signedDigits e ++ cs)) =
      some ([], 'e' :: (signedDigits e ++ cs)) := rfl
  simp [numberBody, whole, fraction, exponentPart_signedDigits e ends, digitsValue_digits]

theorem numberBody_integer (negative : Bool) (n : Nat) (ends : EndsNumber cs)
    (sign : negative = true → n ≠ 0) :
    numberBody negative (digits n ++ cs) =
      some (.integer (if negative then -(n : Int) else n), cs) := by
  simpa [numberBody, wholePart_digits n ends.endsDigits, ends.fractionPart_eq, ends.exponentPart_eq,
    digitsValue_digits] using sign

theorem one_minus (cs : List Char) :
    one ('-' :: cs) = (numberBody true cs).map fun p => (number p.1, p.2) := rfl

theorem one_of_isDigit {c : Char} (digit : c.isDigit = true) :
    one (c :: cs) = (numberBody false (c :: cs)).map fun p => (number p.1, p.2) := by
  unfold one
  split
  case h_13 h => cases h; rfl
  case h_1 h => cases h
  all_goals
    next h =>
      cases h
      exact absurd digit (by decide)

theorem one_digits (n : Nat) (cs : List Char) :
    one (digits n ++ cs) = (numberBody false (digits n ++ cs)).map fun p => (number p.1, p.2) := by
  obtain ⟨d, ds, form, digit⟩ := exists_digits_eq_cons n
  rw [form]
  exact one_of_isDigit digit

theorem one_writeNumber (n : JsonNumber) (ends : EndsNumber cs) :
    one (JsonValue.writeNumber n ++ cs) = some (number n, cs) := by
  cases n with
  | integer a =>
    have form : JsonValue.writeNumber (.integer a) = signedDigits a := rfl
    rw [form]
    unfold signedDigits
    split
    · next negative =>
      have value : -(a.natAbs : Int) = a := by omega
      rw [List.cons_append, one_minus, numberBody_integer true a.natAbs ends (by omega), if_pos rfl,
        value]
      rfl
    · next positive =>
      have value : (a.natAbs : Int) = a := by omega
      rw [one_digits, numberBody_integer false a.natAbs ends nofun, if_neg Bool.false_ne_true,
        value]
      rfl
  | fraction negative n e =>
    have body := numberBody_fraction negative n e ends.endsDigits
    unfold JsonValue.writeNumber
    cases negative with
    | false => simp [one_digits, body]
    | true => simp [one_minus, body]

end JsonToken

end TradingLoad
