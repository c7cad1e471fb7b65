import TradingLoad.Json.Reader
import TradingLoad.Proofs.Json.Spelling

namespace TradingLoad

namespace JsonValue

open JsonToken (Spells EndsNumber openBrace closeBrace openBracket closeBracket colon comma)

mutual

/-- The tokens of a value. -/
def tokens : JsonValue → List JsonToken
  | null => [.null]
  | bool b => [.bool b]
  | number n => [.number n]
  | text t => [.text t]
  | array items => openBracket :: itemTokens items
  | object members => openBrace :: memberTokens members

def itemTokens : List JsonValue → List JsonToken
  | [] => [closeBracket]
  | [v] => tokens v ++ [closeBracket]
  | v :: w :: vs => tokens v ++ comma :: itemTokens (w :: vs)

def memberTokens : List (JsonText × JsonValue) → List JsonToken
  | [] => [closeBrace]
  | [(name, v)] => .text name :: colon :: tokens v ++ [closeBrace]
  | (name, v) :: m :: ms => .text name :: colon :: tokens v ++ comma :: memberTokens (m :: ms)

end

mutual

theorem spells_write : ∀ (v : JsonValue) {rest : List Char} {ts : List JsonToken},
    EndsNumber rest → Spells rest ts → Spells (write v ++ rest) (tokens v ++ ts)
  | null, _, _, _, more => .cons rfl more
  | bool true, _, _, _, more => .cons rfl more
  | bool false, _, _, _, more => .cons rfl more
  | number n, _, _, ends, more => .cons (JsonToken.one_writeNumber n ends) more
  | text t, rest, _, _, more => .cons (JsonToken.one_writeText t rest) more
  | array items, _, _, _, more => .cons rfl (spells_writeItems items more)
  | object members, _, _, _, more => .cons rfl (spells_writeMembers members more)

theorem spells_writeItems : ∀ (items : List JsonValue) {rest : List Char} {ts : List JsonToken},
    Spells rest ts → Spells (writeItems items ++ rest) (itemTokens items ++ ts)
  | [], _, _, more => .cons rfl more
  | [v], _, _, more => by
    simp only [writeItems, itemTokens, List.append_assoc, List.cons_append, List.nil_append]
    exact spells_write v (JsonToken.endsNumber_cons (by decide)) (.cons rfl more)
  | v :: w :: vs, _, _, more => by
    simp only [writeItems, itemTokens, List.append_assoc, List.cons_append]
    exact spells_write v (JsonToken.endsNumber_cons (by decide))
      (.cons rfl (spells_writeItems (w :: vs) more))

theorem spells_writeMembers : ∀ (members : List (JsonText × JsonValue)) {rest : List Char}
    {ts : List JsonToken}, Spells rest ts →
    Spells (writeMembers members ++ rest) (memberTokens members ++ ts)
  | [], _, _, more => .cons rfl more
  | [(name, v)], _, _, more => by
    simp only [writeMembers, memberTokens, List.append_assoc, List.cons_append, List.nil_append]
    refine .cons (JsonToken.one_writeText name _) (.cons rfl ?_)
    exact spells_write v (JsonToken.endsNumber_cons (by decide)) (.cons rfl more)
  | (name, v) :: m :: ms, _, _, more => by
    simp only [writeMembers, memberTokens, List.append_assoc, List.cons_append]
    refine .cons (JsonToken.one_writeText name _) (.cons rfl ?_)
    exact spells_write v (JsonToken.endsNumber_cons (by decide))
      (.cons rfl (spells_writeMembers (m :: ms) more))

end

theorem tokens_eq_cons (v : JsonValue) : ∃ t ts, tokens v = t :: ts ∧ t ≠ closeBracket := by
  cases v <;> exact ⟨_, _, rfl, nofun⟩

theorem itemTokens_eq_cons (v : JsonValue) (vs : List JsonValue) :
    ∃ t ts, itemTokens (v :: vs) = t :: ts ∧ t ≠ closeBracket := by
  obtain ⟨t, ts, form, other⟩ := tokens_eq_cons v
  cases vs with
  | nil => exact ⟨t, ts ++ [closeBracket], by rw [itemTokens, form]; rfl, other⟩
  | cons w vs => exact ⟨t, _, by rw [itemTokens, form]; rfl, other⟩

theorem readFrom_openBracket {depth : Nat} {t : JsonToken} {ts : List JsonToken}
    (other : t ≠ closeBracket) :
    readFrom (depth + 1) (openBracket :: t :: ts) =
      (readItems depth (t :: ts)).map fun p => (array p.1, p.2) := by
  cases t <;> first | rfl | exact absurd rfl other

theorem memberTokens_eq_cons (m : JsonText × JsonValue) (ms : List (JsonText × JsonValue)) :
    ∃ ts, memberTokens (m :: ms) = .text m.1 :: colon :: ts := by
  cases ms <;> exact ⟨_, rfl⟩

theorem readFrom_openBrace {depth : Nat} {name : JsonText} {ts : List JsonToken} :
    readFrom (depth + 1) (openBrace :: .text name :: ts) =
      (readMembers depth (.text name :: ts)).map fun p => (object p.1, p.2) := rfl

mutual

theorem readFrom_tokens : ∀ (v : JsonValue) {depth : Nat} (r : List JsonToken),
    (tokens v).length ≤ depth → readFrom depth (tokens v ++ r) = some (v, r)
  | null, _ + 1, _, _ => rfl
  | bool _, _ + 1, _, _ => rfl
  | number _, _ + 1, _, _ => rfl
  | text _, _ + 1, _, _ => rfl
  | array [], _ + 1, _, _ => rfl
  | object [], _ + 1, _, _ => rfl
  | array (v :: vs), depth + 1, r, deep => by
    obtain ⟨t, ts, form, other⟩ := itemTokens_eq_cons v vs
    have items := readItems_itemTokens v vs r (Nat.le_of_succ_le_succ deep)
    rw [tokens, List.cons_append, form, List.cons_append, readFrom_openBracket other,
      ← List.cons_append, ← form, items]
    rfl
  | object (m :: ms), depth + 1, r, deep => by
    obtain ⟨ts, form⟩ := memberTokens_eq_cons m ms
    have members := readMembers_memberTokens m ms r (Nat.le_of_succ_le_succ deep)
    rw [tokens, List.cons_append, form, List.cons_append, readFrom_openBrace, ← List.cons_append,
      ← form, members]
    rfl
  | v, 0, _, deep => by
    obtain ⟨t, ts, form, -⟩ := tokens_eq_cons v
    rw [form] at deep
    cases deep

theorem readItems_itemTokens : ∀ (v : JsonValue) (vs : List JsonValue) {depth : Nat}
    (r : List JsonToken), (itemTokens (v :: vs)).length ≤ depth →
    readItems depth (itemTokens (v :: vs) ++ r) = some (v :: vs, r)
  | v, vs, 0, _, deep => by
    obtain ⟨t, ts, form, -⟩ := itemTokens_eq_cons v vs
    rw [form] at deep
    cases deep
  | v, [], depth + 1, r, deep => by
    simp only [itemTokens, List.length_append, List.length_cons, List.length_nil] at deep
    have item : readFrom depth (tokens v ++ closeBracket :: r) = some (v, closeBracket :: r) :=
      readFrom_tokens v _ (Nat.le_of_succ_le_succ deep)
    simp [itemTokens, readItems, item]
  | v, w :: vs, depth + 1, r, deep => by
    simp only [itemTokens, List.length_append, List.length_cons] at deep
    have items : readItems depth (itemTokens (w :: vs) ++ r) = some (w :: vs, r) :=
      readItems_itemTokens w vs r (by omega)
    have item : readFrom depth (tokens v ++ comma :: (itemTokens (w :: vs) ++ r)) =
        some (v, comma :: (itemTokens (w :: vs) ++ r)) :=
      readFrom_tokens v _ (by omega)
    simp [itemTokens, readItems, item, items]

theorem readMembers_memberTokens : ∀ (m : JsonText × JsonValue) (ms : List (JsonText × JsonValue))
    {depth : Nat} (r : List JsonToken), (memberTokens (m :: ms)).length ≤ depth →
    readMembers depth (memberTokens (m :: ms) ++ r) = some (m :: ms, r)
  | m, ms, 0, _, deep => by
    obtain ⟨ts, form⟩ := memberTokens_eq_cons m ms
    rw [form] at deep
    cases deep
  | (name, v), [], depth + 1, r, deep => by
    simp only [memberTokens, List.length_append, List.length_cons, List.length_nil] at deep
    have value : readFrom depth (tokens v ++ closeBrace :: r) = some (v, closeBrace :: r) :=
      readFrom_tokens v _ (by omega)
    simp [memberTokens, readMembers, value]
  | (name, v), m :: ms, depth + 1, r, deep => by
    simp only [memberTokens, List.length_append, List.length_cons] at deep
    have members : readMembers depth (memberTokens (m :: ms) ++ r) = some (m :: ms, r) :=
      readMembers_memberTokens m ms r (by omega)
    have value : readFrom depth (tokens v ++ comma :: (memberTokens (m :: ms) ++ r)) =
        some (v, comma :: (memberTokens (m :: ms) ++ r)) :=
      readFrom_tokens v _ (by omega)
    simp [memberTokens, readMembers, value, members]

end

/-- A value is read back from its tokens. -/
theorem ofTokens?_tokens (v : JsonValue) : ofTokens? (tokens v) = some v := by
  have read : readFrom (2 * (tokens v).length + 1) (tokens v ++ []) = some (v, []) :=
    readFrom_tokens v [] (by omega)
  rw [List.append_nil] at read
  unfold ofTokens?
  rw [read]

/-- A value is read back from its text. -/
theorem parse?_render (v : JsonValue) : parse? v.render = some v := by
  have spells : JsonToken.Spells (write v ++ []) (tokens v ++ []) :=
    spells_write v JsonToken.endsNumber_nil (.done rfl)
  rw [List.append_nil, List.append_nil] at spells
  unfold parse? render
  rw [String.toList_ofList, JsonToken.list_eq_some_iff.mpr spells]
  exact ofTokens?_tokens v

end JsonValue

end TradingLoad
