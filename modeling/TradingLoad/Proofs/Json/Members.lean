import TradingLoad.Json.Record
import Mathlib.Data.List.Nodup

namespace TradingLoad.JsonValue

variable {members : List (JsonText × JsonValue)} {named : List (String × JsonValue)}
  {names : List String} {name : String} {r : Fields JsonValue}

/-- The values of the members of a name. -/
def valuesOf (name : JsonText) (members : List (JsonText × JsonValue)) : List JsonValue :=
  (members.filter fun m => m.1 = name).map Prod.snd

theorem mapM_named :
    members.mapM (fun m => m.1.map fun name => (name, m.2)) = some named ↔
      members = named.map fun f => (some f.1, f.2) := by
  induction members generalizing named with
  | nil => cases named <;> simp
  | cons m members ih =>
    obtain ⟨name, v⟩ := m
    simp only [List.mapM_cons, bind, pure, Option.bind_eq_some_iff, Option.map_eq_some_iff, ih]
    constructor
    · rintro ⟨f, ⟨name, rfl, rfl⟩, rest, rfl, same⟩
      rw [← Option.some.inj same]
      rfl
    · intro same
      cases named with
      | nil => cases same
      | cons f rest =>
        obtain ⟨here, later⟩ := List.cons.inj same
        obtain ⟨rfl, rfl⟩ := Prod.mk.inj here
        exact ⟨f, ⟨f.1, rfl, rfl⟩, rest, later, rfl⟩

/-- The names are texts if none is no text. -/
theorem exists_named (texts : valuesOf none members = []) :
    ∃ named : List (String × JsonValue), members = named.map fun f => (some f.1, f.2) := by
  induction members with
  | nil => exact ⟨[], rfl⟩
  | cons m members ih =>
    obtain ⟨_ | name, v⟩ := m
    · simp [valuesOf] at texts
    · obtain ⟨named, rfl⟩ := ih (by simpa [valuesOf] using texts)
      exact ⟨(name, v) :: named, rfl⟩

theorem valuesOf_named (name : JsonText) :
    valuesOf name (named.map fun f => (some f.1, f.2)) =
      (named.filter fun f => some f.1 = name).map Prod.snd := by
  rw [valuesOf, List.filter_map, List.map_map]
  rfl

theorem lookup_eq_head? (entries : List (String × JsonValue)) (name : String) :
    entries.lookup name = ((entries.filter fun f => f.1 = name).map Prod.snd).head? := by
  induction entries with
  | nil => rfl
  | cons f entries ih =>
    obtain ⟨other, v⟩ := f
    rw [List.lookup_cons]
    by_cases same : other = name
    · simp [same]
    · have test : (name == other) = false := beq_eq_false_iff_ne.mpr (Ne.symm same)
      rw [test, ih]
      simp [same]

/-- The names are texts, and none of the fields comes twice. -/
structure HasFields (names : List String) (members : List (JsonText × JsonValue)) : Prop where
  texts : valuesOf none members = []
  once : ∀ name ∈ names, (valuesOf (some name) members).length ≤ 1

theorem count_known (name : String) :
    ((named.filter fun f => names.contains f.1).map Prod.fst).count name =
      if name ∈ names then (named.filter fun f => f.1 = name).length else 0 := by
  rw [List.count, List.countP_map, List.countP_filter, ← List.countP_eq_length_filter]
  split
  · next listed =>
    apply List.countP_congr
    intro f mem
    by_cases same : f.1 = name <;> simp [same, listed]
  · next listed =>
    rw [List.countP_eq_zero]
    intro f mem
    by_cases same : f.1 = name <;> simp [same, listed]

theorem nodup_known_iff :
    ((named.filter fun f => names.contains f.1).map Prod.fst).Nodup ↔
      ∀ name ∈ names, (named.filter fun f => f.1 = name).length ≤ 1 := by
  rw [List.nodup_iff_count_le_one]
  constructor
  · intro single name listed
    have single := single name
    rw [count_known, if_pos listed] at single
    exact single
  · intro single name
    rw [count_known]
    split
    · next listed => exact single name listed
    · exact Nat.zero_le 1

theorem fieldsOfMembers?_eq_some_iff :
    fieldsOfMembers? names members = some r ↔
      ∃ named : List (String × JsonValue), members = named.map (fun f => (some f.1, f.2)) ∧
        (∀ name ∈ names, (named.filter fun f => f.1 = name).length ≤ 1) ∧
        ⟨named.filter fun f => names.contains f.1⟩ = r := by
  simp only [fieldsOfMembers?, bind, Option.bind_eq_some_iff, mapM_named, nodup_known_iff,
    Option.ite_none_right_eq_some, Option.some.injEq]

theorem valuesOf_some_named (name : String) :
    valuesOf (some name) (named.map fun f => (some f.1, f.2)) =
      (named.filter fun f => f.1 = name).map Prod.snd := by
  simp only [valuesOf_named, Option.some.injEq]

/-- An object has fields exactly if the fields are told apart. -/
theorem exists_fields_iff :
    (∃ r, fieldsOfMembers? names members = some r) ↔ HasFields names members := by
  constructor
  · rintro ⟨r, found⟩
    obtain ⟨named, rfl, once, -⟩ := fieldsOfMembers?_eq_some_iff.mp found
    constructor
    · simp [valuesOf_named]
    · intro name listed
      rw [valuesOf_some_named, List.length_map]
      exact once name listed
  · intro apart
    obtain ⟨named, rfl⟩ := exists_named apart.texts
    refine ⟨_, fieldsOfMembers?_eq_some_iff.mpr ⟨named, rfl, ?_, rfl⟩⟩
    intro name listed
    have once := apart.once name listed
    rw [valuesOf_some_named, List.length_map] at once
    exact once

/-- A field is the value of the member with its name. -/
theorem get?_of_fields (found : fieldsOfMembers? names members = some r) (listed : name ∈ names) :
    r.get? name = (valuesOf (some name) members).head? := by
  obtain ⟨named, rfl, -, rfl⟩ := fieldsOfMembers?_eq_some_iff.mp found
  rw [valuesOf_some_named, Fields.get?, lookup_eq_head?, List.filter_filter]
  congr 2
  apply List.filter_congr
  intro f mem
  by_cases same : f.1 = name <;> simp [same, listed]

end TradingLoad.JsonValue
