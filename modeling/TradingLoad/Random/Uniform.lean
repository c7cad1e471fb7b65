import TradingLoad.Random.ChaCha

namespace TradingLoad.Random

/-- A stream of random words, read up to a position. -/
structure Stream where
  key : Key
  position : Nat
  deriving DecidableEq

namespace Stream

def ofSeed (seed : UInt64) : Stream := ⟨Key.ofSeed seed, 0⟩

/-- A seed stands for the stream that it begins. -/
instance : Coe UInt64 Stream := ⟨ofSeed⟩

/-- A new stream, with the next eight words for its key. -/
def fork (s : Stream) : Stream × Stream :=
  (⟨⟨Vector.ofFn fun i => s.key.word (s.position + i)⟩, 0⟩, { s with position := s.position + 8 })

/-- The next two words as one number, the first of them low. -/
def next64 (s : Stream) : Nat × Stream :=
  ((s.key.word s.position).toNat + 0x100000000 * (s.key.word (s.position + 1)).toNat,
    { s with position := s.position + 2 })

/-- The greatest multiple of `n` by a power of two below 2 to the 64, less one: a draw whose low
half lies above it would favour some numbers. -/
def fairZone (n : Nat) : Nat := n * Nat.pow 2 (63 - n.log2) - 1

/-- How often an unfair draw is repeated. Each of them is fair with odds of at least one in two. -/
def patience : Nat := 4096

/-- A number below `n`. An unfair draw is repeated as often as there are tries; the one after the
last try counts, be it fair or not, so that the search ends on every stream. -/
def drawBelow (n : Nat) : Nat → Stream → Nat × Stream
  | 0, s =>
    let (v, s) := s.next64
    (v * n / 0x10000000000000000, s)
  | tries + 1, s =>
    let (v, s) := s.next64
    if v * n % 0x10000000000000000 ≤ fairZone n then (v * n / 0x10000000000000000, s)
    else drawBelow n tries s

/-- A number between 1 and `n`. All are equally likely, but for the odds that patience runs out. -/
def uniform (n : Nat) (s : Stream) : Nat × Stream :=
  let (v, s) := drawBelow n patience s
  (v + 1, s)

theorem next64_lt (s : Stream) : s.next64.1 < 0x10000000000000000 := by
  have h₁ := (s.key.word s.position).toNat_lt
  have h₂ := (s.key.word (s.position + 1)).toNat_lt
  simp only [next64]
  omega

theorem drawBelow_lt {n : Nat} (h : 0 < n) (tries : Nat) (s : Stream) :
    (drawBelow n tries s).1 < n := by
  have key (s : Stream) : s.next64.1 * n / 0x10000000000000000 < n := by
    rw [Nat.div_lt_iff_lt_mul (by decide), Nat.mul_comm]
    exact Nat.mul_lt_mul_of_pos_left s.next64_lt h
  induction tries generalizing s with
  | zero => exact key s
  | succ tries ih =>
    simp only [drawBelow]
    split
    · exact key s
    · exact ih _

theorem uniform_mem {n : Nat} (h : 0 < n) (s : Stream) :
    1 ≤ (s.uniform n).1 ∧ (s.uniform n).1 ≤ n := by
  have := drawBelow_lt h patience s
  simp only [uniform]
  omega

end Stream

end TradingLoad.Random
