namespace TradingLoad.Random

/-- Sixteen words: the input or the output of the block function. -/
abbrev Block := Vector UInt32 16

/-- Eight words from which all others follow. -/
structure Key where
  words : Vector UInt32 8
  deriving DecidableEq

def rotateLeft (x : UInt32) (n : UInt32) : UInt32 := (x <<< n) ||| (x >>> (32 - n))

/-- Adds, mixes and rotates four words of a block. -/
def quarterRound (s : Block) (a b c d : Fin 16) : Block :=
  let s := s.set a (s[a] + s[b])
  let s := s.set d (rotateLeft (s[d] ^^^ s[a]) 16)
  let s := s.set c (s[c] + s[d])
  let s := s.set b (rotateLeft (s[b] ^^^ s[c]) 12)
  let s := s.set a (s[a] + s[b])
  let s := s.set d (rotateLeft (s[d] ^^^ s[a]) 8)
  let s := s.set c (s[c] + s[d])
  s.set b (rotateLeft (s[b] ^^^ s[c]) 7)

/-- One round on the columns of a block and one on its diagonals. -/
def doubleRound (s : Block) : Block :=
  let s := quarterRound s 0 4 8 12
  let s := quarterRound s 1 5 9 13
  let s := quarterRound s 2 6 10 14
  let s := quarterRound s 3 7 11 15
  let s := quarterRound s 0 5 10 15
  let s := quarterRound s 1 6 11 12
  let s := quarterRound s 2 7 8 13
  quarterRound s 3 4 9 14

/-- The input of a block: the constant `expand 32-byte k`, the key, the number of the block as two
words, and no nonce. -/
def Key.input (key : Key) (number : Nat) : Block :=
  #v[0x61707865, 0x3320646e, 0x79622d32, 0x6b206574,
    key.words[0], key.words[1], key.words[2], key.words[3],
    key.words[4], key.words[5], key.words[6], key.words[7],
    UInt32.ofNat number, UInt32.ofNat (number / 0x100000000), 0, 0]

def Key.block (key : Key) (number : Nat) : Block :=
  let input := key.input number
  let mixed := Nat.repeat doubleRound 6 input
  Vector.zipWith (· + ·) input mixed

/-- The word at a position of the stream. -/
def Key.word (key : Key) (position : Nat) : UInt32 :=
  (key.block (position / 16)).get ⟨position % 16, Nat.mod_lt _ (by decide)⟩

/-- The low half of a number rotated right. -/
def rotateRight (x : UInt32) (n : UInt32) : UInt32 := (x >>> n) ||| (x <<< ((32 - n) % 32))

/-- One step of the generator that spreads a seed over a key, and the word that it yields. -/
def spread (state : UInt64) : UInt64 × UInt32 :=
  let state := state * 6364136223846793005 + 11634580027462260723
  let x := (((state >>> 18) ^^^ state) >>> 27).toUInt32
  (state, rotateRight x (state >>> 59).toUInt32)

/-- The words of the key that belongs to a seed. -/
def spreadWords : Nat → UInt64 → List UInt32
  | 0, _ => []
  | n + 1, state =>
    let (state, word) := spread state
    word :: spreadWords n state

theorem length_spreadWords (n : Nat) (state : UInt64) : (spreadWords n state).length = n := by
  induction n generalizing state with
  | zero => rfl
  | succ n ih => simp [spreadWords, ih]

def Key.ofSeed (seed : UInt64) : Key :=
  ⟨⟨(spreadWords 8 seed).toArray, by simp [length_spreadWords]⟩⟩

end TradingLoad.Random
