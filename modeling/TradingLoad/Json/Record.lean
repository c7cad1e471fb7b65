import TradingLoad.Fault
import TradingLoad.Json.Reader

namespace TradingLoad

/-- The fields of a record that are there, with their values. -/
structure Fields (V : Type) where
  entries : List (String × V)

/-- How a notation spells the things that records are made of. -/
structure DataNotation (V : Type) where
  /-- The fields with the given names. -/
  fields? : List String → V → Option (Fields V)
  /-- A signed 64-bit number. -/
  int? : V → Option Int
  /-- A number of so many bits without a sign. -/
  word? : Nat → V → Option Nat
  string? : V → Option String
  list? : V → Option (List V)

namespace Fields

variable {V α : Type}

def get? (r : Fields V) (name : String) : Option V := r.entries.lookup name

def required (r : Fields V) (name : String) (read : V → Option α) : Option α :=
  (r.get? name).bind read

/-- A field that has a value of its own when it is not there. -/
def defaulted (r : Fields V) (name : String) (fallback : α) (read : V → Option α) : Option α :=
  match r.get? name with
  | none => some fallback
  | some v => read v

end Fields

namespace JsonValue

/-- The members with one of the given names, none of which may come twice. Every name of a member
has to be a text. -/
def fieldsOfMembers? (names : List String) (members : List (JsonText × JsonValue)) :
    Option (Fields JsonValue) := do
  let named ← members.mapM fun m => m.1.map fun name => (name, m.2)
  let known := named.filter fun m => names.contains m.1
  if (known.map Prod.fst).Nodup then some ⟨known⟩ else none

def fields? (names : List String) : JsonValue → Option (Fields JsonValue)
  | object members => fieldsOfMembers? names members
  | array items => if items.length ≤ names.length then some ⟨names.zip items⟩ else none
  | _ => none

def int? : JsonValue → Option Int
  | number (.integer a) => if InInt64 a then some a else none
  | _ => none

def word? (bits : Nat) : JsonValue → Option Nat
  | number (.integer a) => if 0 ≤ a ∧ a < Int.pow 2 bits then some a.toNat else none
  | _ => none

def bool? : JsonValue → Option Bool
  | bool b => some b
  | _ => none

def string? : JsonValue → Option String
  | text t => t
  | _ => none

def items? : JsonValue → Option (List JsonValue)
  | array items => some items
  | _ => none

def list? {α : Type} (read : JsonValue → Option α) (v : JsonValue) : Option (List α) := do
  (← v.items?).mapM read

/-- A value that may be missing: `null` stands for none. -/
def option? {α : Type} (read : JsonValue → Option α) : JsonValue → Option (Option α)
  | null => some none
  | v => (read v).map some

/-- JSON as a notation for records. -/
def dataNotation : DataNotation JsonValue where
  fields? := fields?
  int? := int?
  word? := word?
  string? := string?
  list? := items?

end JsonValue

end TradingLoad
