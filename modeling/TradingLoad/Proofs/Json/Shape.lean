import TradingLoad.Proofs.Json.Members

namespace TradingLoad

/-- What a value stands for: a record with the given fields, a list, or a thing without parts that
have names. -/
inductive Shape where
  | plain
  | list (item : Shape)
  | record (fields : List (String × Shape))

namespace Shape

def names : Shape → List String
  | record fields => fields.map Prod.fst
  | _ => []

/-- The shape of the value of a member. -/
def member : Shape → JsonText → Shape
  | record fields, some name => (fields.lookup name).getD plain
  | _, _ => plain

/-- The shape of the item in a place. The items of an array that stands for a record are its fields
in their order. -/
def item : Shape → Nat → Shape
  | list s, _ => s
  | s, place => s.member s.names[place]?

/-- A name stands for nothing in a record. -/
def IsUnknown : Shape → String → Prop
  | record fields, name => name ∉ fields.map Prod.fst
  | _, _ => False

theorem IsUnknown.notMem {s : Shape} {name : String} (unknown : s.IsUnknown name) :
    name ∉ s.names := by
  cases s with
  | record fields => exact unknown
  | _ => cases unknown

/-- A record of things without parts. -/
def flat (names : List String) : Shape := record (names.map fun name => (name, plain))

end Shape

namespace JsonValue

variable {s : Shape} {v w : JsonValue} {ms ns : List (JsonText × JsonValue)}

/-- The second value is the first one, but that objects in it may have their members in another
order, and where they stand for records also more members, of names that are none of a field. -/
inductive Relaid : Shape → JsonValue → JsonValue → Prop
  | refl (s : Shape) (v : JsonValue) : Relaid s v v
  | trans {s : Shape} {u v w : JsonValue} (first : Relaid s u v) (more : Relaid s v w) :
      Relaid s u w
  | reorder {s : Shape} {ms ns : List (JsonText × JsonValue)} (perm : ms.Perm ns) :
      Relaid s (object ms) (object ns)
  | insert {s : Shape} {name : String} (unknown : s.IsUnknown name) (v : JsonValue)
      (ms : List (JsonText × JsonValue)) : Relaid s (object ms) (object ((some name, v) :: ms))
  | item {s : Shape} {v w : JsonValue} {vs ws : List JsonValue}
      (part : Relaid (s.item vs.length) v w) :
      Relaid s (array (vs ++ v :: ws)) (array (vs ++ w :: ws))
  | member {s : Shape} {name : JsonText} {v w : JsonValue} {ms ns : List (JsonText × JsonValue)}
      (part : Relaid (s.member name) v w) :
      Relaid s (object (ms ++ (name, v) :: ns)) (object (ms ++ (name, w) :: ns))

/-- An object in the value that stands for a record has a field twice, or a member whose name is no
text. -/
inductive Spoilt : Shape → JsonValue → Prop
  | twice {s : Shape} {name : String} {ms : List (JsonText × JsonValue)} (known : name ∈ s.names)
      (again : 2 ≤ (valuesOf (some name) ms).length) : Spoilt s (object ms)
  | nameless {fields : List (String × Shape)} {ms : List (JsonText × JsonValue)}
      (listed : valuesOf none ms ≠ []) : Spoilt (.record fields) (object ms)
  | item {s : Shape} {v : JsonValue} {vs : List JsonValue} {place : Nat}
      (here : vs[place]? = some v) (part : Spoilt (s.item place) v) : Spoilt s (array vs)
  | member {s : Shape} {name : JsonText} {v : JsonValue} {ms : List (JsonText × JsonValue)}
      (listed : (name, v) ∈ ms) (part : Spoilt (s.member name) v) : Spoilt s (object ms)

/-- A reader takes values for what a shape says: it does not tell relaid values apart, and reads
nothing from a spoilt one. -/
structure Respects {α : Type} (s : Shape) (read : JsonValue → Option α) : Prop where
  again : ∀ {v w}, Relaid s v w → read w = read v
  unspoilt : ∀ {v a}, read v = some a → ¬ Spoilt s v

theorem not_spoilt_plain (v : JsonValue) : ¬ Spoilt .plain v := by
  intro spoilt
  generalize same : Shape.plain = s at spoilt
  induction spoilt with
  | twice known =>
    subst same
    cases known
  | nameless => cases same
  | item here part ih =>
    subst same
    exact ih rfl
  | member listed part ih =>
    subst same
    exact ih rfl

theorem Relaid.null_iff (relaid : Relaid s v w) : v = null ↔ w = null := by
  induction relaid with
  | refl => rfl
  | trans first more ih ih' => exact ih.trans ih'
  | reorder | insert | item | member => simp

variable {α β : Type} {read : JsonValue → Option α}

/-- What is read from no array and no object has no layout. -/
theorem respects_plain (items : ∀ vs, read (array vs) = none)
    (members : ∀ ms, read (object ms) = none) : Respects .plain read where
  again relaid := by
    generalize Shape.plain = s at relaid
    induction relaid with
    | refl => rfl
    | trans first more ih ih' => exact ih'.trans ih
    | reorder | insert | member => rw [members, members]
    | item => rw [items, items]
  unspoilt _ := not_spoilt_plain _

theorem respects_int : Respects .plain int? := respects_plain (fun _ => rfl) fun _ => rfl

theorem respects_word (bits : Nat) : Respects .plain (word? bits) :=
  respects_plain (fun _ => rfl) fun _ => rfl

theorem respects_bool : Respects .plain bool? := respects_plain (fun _ => rfl) fun _ => rfl

theorem respects_string : Respects .plain string? := respects_plain (fun _ => rfl) fun _ => rfl

theorem option?_of_ne_null (shown : v ≠ null) : option? read v = (read v).map some := by
  cases v with
  | null => exact absurd rfl shown
  | _ => rfl

theorem Respects.option (h : Respects s read) : Respects s (option? read) where
  again {v w} relaid := by
    by_cases null : v = null
    · rw [null, relaid.null_iff.mp null]
    · rw [option?_of_ne_null null, option?_of_ne_null (mt relaid.null_iff.mpr null), h.again relaid]
  unspoilt {v a} found := by
    by_cases null : v = null
    · subst null
      exact nofun
    · rw [option?_of_ne_null null] at found
      obtain ⟨b, here, -⟩ := Option.map_eq_some_iff.mp found
      exact h.unspoilt here

theorem exists_of_mapM {vs : List JsonValue} {as : List α} (found : vs.mapM read = some as)
    (listed : v ∈ vs) : ∃ a, read v = some a := by
  induction vs generalizing as with
  | nil => cases listed
  | cons u vs ih =>
    simp only [List.mapM_cons, bind, Option.bind_eq_some_iff] at found
    obtain ⟨a, first, as', more, -⟩ := found
    rcases List.mem_cons.mp listed with rfl | later
    · exact ⟨a, first⟩
    · exact ih more later

theorem Respects.list (h : Respects s read) : Respects (.list s) (list? read) where
  again relaid := by
    generalize same : Shape.list s = s' at relaid
    induction relaid with
    | refl => rfl
    | trans first more ih ih' => exact (ih' same).trans (ih same)
    | reorder | insert | member => rfl
    | item part =>
      subst same
      simp [list?, items?, h.again part]
  unspoilt {v as} found spoilt := by
    cases spoilt with
    | twice known => cases known
    | item here part =>
      obtain ⟨a, read⟩ := exists_of_mapM found (List.mem_of_getElem? here)
      exact h.unspoilt read part
    | member => cases found

/-- Fields of one record are those of another one, but for the layout. -/
def AgreeOn (s : Shape) (names : List String) (r r' : Fields JsonValue) : Prop :=
  ∀ name ∈ names, Option.Rel (Relaid (s.member (some name))) (r.get? name) (r'.get? name)

theorem rel_refl (s : Shape) (v : Option JsonValue) : Option.Rel (Relaid s) v v := by
  cases v with
  | none => exact .none
  | some v => exact .some (.refl s v)

theorem valuesOf_append (name : JsonText) (ms ns : List (JsonText × JsonValue)) :
    valuesOf name (ms ++ ns) = valuesOf name ms ++ valuesOf name ns := by
  simp [valuesOf]

theorem valuesOf_cons (name other : JsonText) (v : JsonValue) (ms : List (JsonText × JsonValue)) :
    valuesOf name ((other, v) :: ms) =
      if other = name then v :: valuesOf name ms else valuesOf name ms := by
  unfold valuesOf
  rw [List.filter_cons]
  by_cases same : other = name <;> simp [same]

theorem mem_valuesOf {name : JsonText} (listed : (name, v) ∈ ms) : v ∈ valuesOf name ms :=
  List.mem_map.mpr ⟨_, List.mem_filter.mpr ⟨listed, by simp⟩, rfl⟩

theorem head?_of_mem {vs : List JsonValue} (listed : v ∈ vs) (single : vs.length ≤ 1) :
    vs.head? = some v := by
  rcases vs with - | ⟨u, - | ⟨u', vs⟩⟩
  · cases listed
  · rw [List.mem_singleton.mp listed]
    rfl
  · simp at single

theorem eq_of_perm {α : Type} {as bs : List α} (perm : as.Perm bs) (single : as.length ≤ 1) :
    as = bs := by
  rcases as with - | ⟨a, - | ⟨b, as⟩⟩
  · exact perm.nil_eq
  · exact (List.perm_singleton.mp perm.symm).symm
  · simp at single

theorem valuesOf_perm (perm : ms.Perm ns) (name : JsonText) :
    (valuesOf name ms).Perm (valuesOf name ns) := (perm.filter _).map _

variable {names : List String}

/-- The fields are found alike, in one object as in another one. -/
theorem rel_of_members (apart : HasFields s.names ms ↔ HasFields s.names ns)
    (values : HasFields s.names ms → ∀ name ∈ s.names, Option.Rel (Relaid (s.member (some name)))
      (valuesOf (some name) ms).head? (valuesOf (some name) ns).head?) :
    Option.Rel (AgreeOn s s.names) (fields? s.names (object ms)) (fields? s.names (object ns)) := by
  change Option.Rel _ (fieldsOfMembers? s.names ms) (fieldsOfMembers? s.names ns)
  cases found : fieldsOfMembers? s.names ms with
  | none =>
    cases found' : fieldsOfMembers? s.names ns with
    | none => exact .none
    | some r' =>
      obtain ⟨r, absurd⟩ := exists_fields_iff.mpr (apart.mpr (exists_fields_iff.mp ⟨r', found'⟩))
      rw [found] at absurd
      cases absurd
  | some r =>
    have has := exists_fields_iff.mp ⟨r, found⟩
    obtain ⟨r', found'⟩ := exists_fields_iff.mpr (apart.mp has)
    rw [found']
    refine .some fun name listed => ?_
    rw [get?_of_fields found listed, get?_of_fields found' listed]
    exact values has name listed

theorem HasFields.of_length
    (texts : (valuesOf none ms).length = (valuesOf none ns).length)
    (known : ∀ name ∈ names, (valuesOf (some name) ms).length = (valuesOf (some name) ns).length)
    (has : HasFields names ms) : HasFields names ns where
  texts := by rw [← List.length_eq_zero_iff, ← texts, has.texts, List.length_nil]
  once name listed := by
    rw [← known name listed]
    exact has.once name listed

/-- Whether an object has the fields is a matter of how often each name comes. -/
theorem HasFields.congr
    (texts : (valuesOf none ms).length = (valuesOf none ns).length)
    (known : ∀ name ∈ names, (valuesOf (some name) ms).length = (valuesOf (some name) ns).length) :
    HasFields names ms ↔ HasFields names ns :=
  ⟨.of_length texts known, .of_length texts.symm fun name listed => (known name listed).symm⟩

theorem rel_reorder (perm : ms.Perm ns) :
    Option.Rel (AgreeOn s s.names) (fields? s.names (object ms)) (fields? s.names (object ns)) := by
  have values (name : JsonText) := valuesOf_perm perm name
  have length (name : JsonText) := (values name).length_eq
  refine rel_of_members (HasFields.congr (length none) fun name _ => length name) ?_
  intro has name listed
  rw [eq_of_perm (values (some name)) (has.once name listed)]
  exact rel_refl _ _

theorem rel_insert {name : String} (unknown : s.IsUnknown name) (v : JsonValue)
    (ms : List (JsonText × JsonValue)) :
    Option.Rel (AgreeOn s s.names) (fields? s.names (object ms))
      (fields? s.names (object ((some name, v) :: ms))) := by
  have texts : valuesOf none ms = valuesOf none ((some name, v) :: ms) := by
    rw [valuesOf_cons, if_neg nofun]
  have known (other : String) (listed : other ∈ s.names) :
      valuesOf (some other) ms = valuesOf (some other) ((some name, v) :: ms) := by
    rw [valuesOf_cons, if_neg]
    rintro same
    cases same
    exact unknown.notMem listed
  refine rel_of_members (HasFields.congr (congrArg _ texts) fun other listed => ?_) ?_
  · rw [known other listed]
  · intro _ other listed
    rw [← known other listed]
    exact rel_refl _ _

theorem rel_member {name : JsonText} (part : Relaid (s.member name) v w) :
    Option.Rel (AgreeOn s s.names) (fields? s.names (object (ms ++ (name, v) :: ns)))
      (fields? s.names (object (ms ++ (name, w) :: ns))) := by
  have length (other : JsonText) : (valuesOf other (ms ++ (name, v) :: ns)).length =
      (valuesOf other (ms ++ (name, w) :: ns)).length := by
    simp only [valuesOf_append, valuesOf_cons]
    split <;> simp
  refine rel_of_members (HasFields.congr (length none) fun other _ => length other) ?_
  intro _ other _
  simp only [valuesOf_append, valuesOf_cons]
  split
  · next same =>
    subst same
    cases valuesOf (some other) ms with
    | nil => exact .some part
    | cons u us => exact rel_refl _ _
  · exact rel_refl _ _

theorem rel_lookup_zip {vs ws : List JsonValue} (name : String)
    (part : ∀ other, names[vs.length]? = some other → Relaid (s.member (some other)) v w) :
    Option.Rel (Relaid (s.member (some name))) ((names.zip (vs ++ v :: ws)).lookup name)
      ((names.zip (vs ++ w :: ws)).lookup name) := by
  induction vs generalizing names with
  | nil =>
    cases names with
    | nil => exact .none
    | cons other names =>
      simp only [List.nil_append, List.zip_cons_cons, List.lookup_cons]
      split
      · next same =>
        rw [beq_iff_eq.mp same]
        exact .some (part other rfl)
      · exact rel_refl _ _
  | cons u vs ih =>
    cases names with
    | nil => exact .none
    | cons other names =>
      simp only [List.cons_append, List.zip_cons_cons, List.lookup_cons]
      split
      · exact rel_refl _ _
      · exact ih part

theorem rel_item {fields : List (String × Shape)} {vs ws : List JsonValue}
    (part : Relaid ((Shape.record fields).item vs.length) v w) :
    Option.Rel (AgreeOn (.record fields) (fields.map Prod.fst))
      (fields? (Shape.record fields).names (array (vs ++ v :: ws)))
      (fields? (Shape.record fields).names (array (vs ++ w :: ws))) := by
  simp only [fields?]
  have length : (vs ++ w :: ws).length = (vs ++ v :: ws).length := by simp
  rw [length]
  split
  · refine .some fun name _ => rel_lookup_zip name fun other place => ?_
    change Relaid ((Shape.record fields).member (Shape.record fields).names[vs.length]?) v w at part
    rwa [place] at part
  · exact .none

/-- Something is made of the fields of given names, as their shapes say. -/
structure TakesFields {α : Type} (s : Shape) (read : List String)
    (build : Fields JsonValue → Option α) : Prop where
  again : ∀ {r r'}, AgreeOn s read r r' → build r' = build r
  unspoilt : ∀ {r a}, build r = some a → ∀ name ∈ read, ∀ v, r.get? name = some v →
    ¬ Spoilt (s.member (some name)) v

section

variable {name : String} {taken more : List String}

theorem TakesFields.pure (a : α) : TakesFields s [] fun _ => Pure.pure a where
  again _ := rfl
  unspoilt _ := nofun

theorem TakesFields.bind {first : Fields JsonValue → Option β}
    {rest : β → Fields JsonValue → Option α} (h : TakesFields s taken first)
    (h' : ∀ b, TakesFields s more (rest b)) :
    TakesFields s (taken ++ more) fun r => first r >>= fun b => rest b r where
  again {r r'} agree := by
    have here : AgreeOn s taken r r' := fun name listed =>
      agree name (List.mem_append_left _ listed)
    have later : AgreeOn s more r r' := fun name listed =>
      agree name (List.mem_append_right _ listed)
    rw [h.again here]
    exact congrArg _ (funext fun b => (h' b).again later)
  unspoilt {r a} built name listed := by
    obtain ⟨b, here, later⟩ := Option.bind_eq_some_iff.mp built
    rcases List.mem_append.mp listed with listed | listed
    · exact h.unspoilt here name listed
    · exact (h' b).unspoilt later name listed

/-- A field is looked at, whether it is there or not. -/
theorem TakesFields.field (look : Option JsonValue → Option α)
    (again : ∀ {v w}, Relaid (s.member (some name)) v w → look (some w) = look (some v))
    (unspoilt : ∀ {v a}, look (some v) = some a → ¬ Spoilt (s.member (some name)) v) :
    TakesFields s [name] fun r => look (r.get? name) where
  again {r r'} agree := by
    have part := agree name List.mem_cons_self
    generalize r.get? name = here, r'.get? name = there at part
    cases part with
    | none => rfl
    | some relaid => exact again relaid
  unspoilt {r a} found other single v here := by
    obtain rfl := List.mem_singleton.mp single
    rw [here] at found
    exact unspoilt found

theorem TakesFields.required (h : Respects (s.member (some name)) read) :
    TakesFields s [name] fun r => r.required name read :=
  .field (fun v => v.bind read) h.again h.unspoilt

theorem TakesFields.defaulted {fallback : α} (h : Respects (s.member (some name)) read) :
    TakesFields s [name] fun r => r.defaulted name fallback read := by
  have same (r : Fields JsonValue) :
      r.defaulted name fallback read = (r.get? name).elim (some fallback) read := by
    unfold Fields.defaulted
    cases r.get? name <;> rfl
  simp only [same]
  exact .field (fun v => v.elim (some fallback) read) h.again h.unspoilt

end

theorem lookup_zip {place : Nat} {name : String} {vs : List JsonValue} (distinct : names.Nodup)
    (named : names[place]? = some name) (here : vs[place]? = some v) :
    (names.zip vs).lookup name = some v := by
  induction names generalizing place vs with
  | nil => cases named
  | cons other names ih =>
    obtain ⟨fresh, distinct⟩ := List.nodup_cons.mp distinct
    cases vs with
    | nil => cases here
    | cons u vs =>
      cases place with
      | zero =>
        cases named
        cases here
        rw [List.zip_cons_cons, List.lookup_cons_self]
      | succ place =>
        have ne : (name == other) = false := by
          refine beq_eq_false_iff_ne.mpr ?_
          rintro rfl
          exact fresh (List.mem_of_getElem? named)
        rw [List.zip_cons_cons, List.lookup_cons, ne]
        exact ih distinct named here

theorem member_of_unknown {name : String} {fields : List (String × Shape)}
    (unknown : name ∉ fields.map Prod.fst) : (Shape.record fields).member (some name) = .plain := by
  have none : fields.lookup name = none := by
    refine List.lookup_eq_none_iff.mpr fun f listed => ?_
    rw [bne_iff_ne]
    rintro rfl
    exact unknown (List.mem_map_of_mem listed)
  unfold Shape.member
  simp only [none, Option.getD_none]

/-- A part of a record that is spoilt is the value of a field. -/
theorem exists_of_spoilt {fields : List (String × Shape)} {r : Fields JsonValue}
    (distinct : (fields.map Prod.fst).Nodup) (found : fields? (fields.map Prod.fst) v = some r)
    (spoilt : Spoilt (.record fields) v) :
    ∃ name ∈ fields.map Prod.fst, ∃ w, r.get? name = some w ∧
      Spoilt ((Shape.record fields).member (some name)) w := by
  cases spoilt with
  | @twice _ name ms known again =>
    have single := (exists_fields_iff.mp ⟨r, found⟩).once name known
    omega
  | nameless listed => exact absurd (exists_fields_iff.mp ⟨r, found⟩).texts listed
  | @item _ w vs place here part =>
    obtain ⟨short, same⟩ := Option.ite_none_right_eq_some.mp found
    cases same
    obtain ⟨within, -⟩ := List.getElem?_eq_some_iff.mp here
    have named := List.getElem?_eq_getElem (Nat.lt_of_lt_of_le within short)
    change Spoilt ((Shape.record fields).member (fields.map Prod.fst)[place]?) w at part
    rw [named] at part
    exact ⟨_, List.mem_of_getElem? named, w, lookup_zip distinct named here, part⟩
  | @member _ name w ms listed part =>
    have has := exists_fields_iff.mp ⟨r, found⟩
    cases name with
    | none => exact absurd part (not_spoilt_plain w)
    | some name =>
      by_cases known : name ∈ fields.map Prod.fst
      · refine ⟨name, known, w, ?_, part⟩
        rw [get?_of_fields found known]
        exact head?_of_mem (mem_valuesOf listed) (has.once name known)
      · rw [member_of_unknown known] at part
        exact absurd part (not_spoilt_plain w)

theorem TakesFields.bind_eq {taken : List String} {build : Fields JsonValue → Option α}
    (h : TakesFields s taken build) {found found' : Option (Fields JsonValue)}
    (agree : Option.Rel (AgreeOn s taken) found found') : found' >>= build = found >>= build := by
  cases agree with
  | none => rfl
  | some agree => exact h.again agree

/-- The reader of a record takes values for what the shape says, if it takes all fields for that. -/
theorem respects_record {fields : List (String × Shape)} {taken : List String}
    {build : Fields JsonValue → Option α} (h : TakesFields (.record fields) taken build)
    (all : taken = fields.map Prod.fst) (distinct : (fields.map Prod.fst).Nodup) :
    Respects (.record fields) fun v => fields? (fields.map Prod.fst) v >>= build where
  again relaid := by
    subst all
    generalize same : Shape.record fields = s at relaid
    induction relaid with
    | refl => rfl
    | trans first more ih ih' => exact (ih' same).trans (ih same)
    | reorder perm => exact h.bind_eq (rel_reorder perm)
    | insert unknown v ms =>
      subst same
      exact h.bind_eq (rel_insert (s := .record fields) unknown v ms)
    | item part =>
      subst same
      exact h.bind_eq (rel_item part)
    | member part =>
      subst same
      exact h.bind_eq (rel_member part)
  unspoilt built spoilt := by
    obtain ⟨r, found, built⟩ := Option.bind_eq_some_iff.mp built
    obtain ⟨name, listed, w, here, part⟩ := exists_of_spoilt distinct found spoilt
    exact h.unspoilt built name (all ▸ listed) w here part

end JsonValue

end TradingLoad
