namespace TradingLoad

/-- A defect that ends the run in which it occurs. A number out of range is one, never a wrong
number. -/
inductive Fault where
  | addOverflow
  | subOverflow
  | mulOverflow
  /-- A ticker was asked to tick without any time between two ticks. -/
  | zeroPeriod
  /-- A moment lies beyond the last one the clock can express. -/
  | instantOverflow
  /-- A list was asked for room beyond what a list can ever have. -/
  | capacityOverflow
  deriving DecidableEq, Repr

namespace Fault

/-- The text under which a fault is reported. -/
def message : Fault → String
  | addOverflow => "attempt to add with overflow"
  | subOverflow => "attempt to subtract with overflow"
  | mulOverflow => "attempt to multiply with overflow"
  | zeroPeriod => "\x60period\x60 must be non-zero."
  | instantOverflow => "overflow when adding duration to instant"
  | capacityOverflow => "capacity overflow"

end Fault

/-- A computation that may end in a fault. -/
abbrev Checked := Except Fault

/-- The values of a signed 64-bit number. -/
def InInt64 (a : Int) : Prop := -0x8000000000000000 ≤ a ∧ a < 0x8000000000000000

instance (a : Int) : Decidable (InInt64 a) := by unfold InInt64; infer_instance

/-- The values of an unsigned 64-bit number. -/
def InWord64 (n : Nat) : Prop := n < 0x10000000000000000

instance (n : Nat) : Decidable (InWord64 n) := by unfold InWord64; infer_instance

/-- The sizes of lists in memory, in bytes. -/
def InMemory (bytes : Nat) : Prop := bytes < 0x8000000000000000

instance (bytes : Nat) : Decidable (InMemory bytes) := by unfold InMemory; infer_instance

namespace Checked

/-- The number itself where it is a signed 64-bit number, else the given fault. -/
def signed (fault : Fault) (a : Int) : Checked Int :=
  if InInt64 a then .ok a else .error fault

/-- The number itself where it is an unsigned 64-bit number, else the given fault. -/
def unsigned (fault : Fault) (n : Nat) : Checked Nat :=
  if InWord64 n then .ok n else .error fault

def add (a b : Int) : Checked Int := signed .addOverflow (a + b)

def sub (a b : Int) : Checked Int := signed .subOverflow (a - b)

def mul (a b : Int) : Checked Int := signed .mulOverflow (a * b)

def addNat (a b : Nat) : Checked Nat := unsigned .addOverflow (a + b)

def mulNat (a b : Nat) : Checked Nat := unsigned .mulOverflow (a * b)

/-- Lays out a list of so many bytes. Whether the machine has them to give is left out. -/
def layOut (bytes : Nat) : Checked Unit :=
  if InMemory bytes then .ok () else .error .capacityOverflow

theorem signed_eq_ok_iff {fault : Fault} {a b : Int} :
    signed fault a = .ok b ↔ InInt64 a ∧ a = b := by
  unfold signed
  split <;> simp_all

theorem unsigned_eq_ok_iff {fault : Fault} {m n : Nat} :
    unsigned fault m = .ok n ↔ InWord64 m ∧ m = n := by
  unfold unsigned
  split <;> simp_all

theorem add_eq_ok_iff {a b c : Int} : add a b = .ok c ↔ InInt64 (a + b) ∧ a + b = c :=
  signed_eq_ok_iff

theorem sub_eq_ok_iff {a b c : Int} : sub a b = .ok c ↔ InInt64 (a - b) ∧ a - b = c :=
  signed_eq_ok_iff

theorem mul_eq_ok_iff {a b c : Int} : mul a b = .ok c ↔ InInt64 (a * b) ∧ a * b = c :=
  signed_eq_ok_iff

theorem addNat_eq_ok_iff {a b c : Nat} : addNat a b = .ok c ↔ InWord64 (a + b) ∧ a + b = c :=
  unsigned_eq_ok_iff

theorem mulNat_eq_ok_iff {a b c : Nat} : mulNat a b = .ok c ↔ InWord64 (a * b) ∧ a * b = c :=
  unsigned_eq_ok_iff

theorem layOut_eq_ok_iff {bytes : Nat} : layOut bytes = .ok () ↔ InMemory bytes := by
  unfold layOut
  split <;> simp_all

end Checked

end TradingLoad
