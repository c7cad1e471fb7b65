import Mathlib.Data.List.TakeWhile
import TradingLoad.Text.Blank
import TradingLoad.Text.Decimal

namespace TradingLoad.Text

variable {ds rest : List Char} {c : Char} {n : Nat}

/-- A run of digits ends before this text. -/
def EndsDigits (rest : List Char) : Prop := ∀ c ∈ rest.head?, c.isDigit = false

theorem endsDigits_cons (h : c.isDigit = false) : EndsDigits (c :: rest) := by
  intro d first
  obtain rfl : c = d := by simpa using first
  exact h

theorem spanDigits_append (all : ∀ c ∈ ds, c.isDigit = true) (ends : EndsDigits rest) :
    spanDigits (ds ++ rest) = (ds, rest) := by
  have none : rest.takeWhile Char.isDigit = [] ∧ rest.dropWhile Char.isDigit = rest := by
    cases rest with
    | nil => exact ⟨rfl, rfl⟩
    | cons c rest =>
      have stop := ends c rfl
      simp [stop]
  unfold spanDigits
  rw [List.takeWhile_append_of_pos all, List.dropWhile_append_of_pos all, none.1, none.2,
    List.append_nil]

/-- Digits are read up to the most that may be taken, or to their end. -/
theorem takeNumber_append {most : Nat} (some : ds ≠ []) (all : ∀ c ∈ ds, c.isDigit = true)
    (stops : ds.length = most ∨ ds.length ≤ most ∧ EndsDigits rest) :
    takeNumber most (ds ++ rest) = .some (digitsValue ds, rest) := by
  have taken : ((ds ++ rest).take most).takeWhile Char.isDigit = ds := by
    rcases stops with full | ⟨fewer, ends⟩
    · rw [← full, List.take_left]
      exact List.takeWhile_eq_self_iff.mpr all
    · rw [List.take_append, List.take_of_length_le fewer]
      have short : EndsDigits (rest.take (most - ds.length)) := by
        intro c first
        rw [List.head?_take] at first
        split at first
        · cases first
        · exact ends c first
      exact congrArg Prod.fst (spanDigits_append all short)
  unfold takeNumber
  rw [taken]
  cases ds with
  | nil => exact absurd rfl some
  | cons d ds => simp

theorem takeLongNumber_append (some : ds ≠ []) (all : ∀ c ∈ ds, c.isDigit = true)
    (ends : EndsDigits rest) : takeLongNumber (ds ++ rest) = .some (digitsValue ds, rest) := by
  refine takeNumber_append some all (.inr ⟨?_, ends⟩)
  rw [List.length_append]
  omega

/-- Digits denote a number with no more digits. -/
theorem digitsValue_lt (all : ∀ c ∈ ds, c.isDigit = true) :
    digitsValue ds < Nat.pow 10 ds.length := by
  induction ds with
  | nil => decide
  | cons d ds ih =>
    obtain ⟨digit, all⟩ := List.forall_mem_cons.mp all
    have rest := ih all
    have value : digitsValue (d :: ds) =
        Nat.pow 10 ds.length * (d.toNat - '0'.toNat) + digitsValue ds := by
      unfold digitsValue
      rw [Nat.ofDigitChars_cons, Nat.mul_zero, Nat.zero_add]
      exact Nat.ofDigitChars_eq_ofDigitChars_zero
    have nine : d.toNat - '0'.toNat ≤ 9 := by
      have bounds := Char.isDigit_iff_toNat.mp digit
      simp only [Char.reduceToNat] at bounds ⊢
      omega
    have first : Nat.pow 10 ds.length * (d.toNat - '0'.toNat) ≤ Nat.pow 10 ds.length * 9 :=
      Nat.mul_le_mul_left _ nine
    have power : Nat.pow 10 (ds.length + 1) = Nat.pow 10 ds.length * 10 := rfl
    rw [value, List.length_cons, power]
    omega

theorem digits_ne_nil (n : Nat) : digits n ≠ [] := Nat.toDigits_ne_nil

theorem length_digits_le_iff {width : Nat} (some : 0 < width) :
    (digits n).length ≤ width ↔ n < Nat.pow 10 width :=
  Nat.length_toDigits_le_iff (by decide) some

/-- Only the number zero is written with a zero in front. -/
theorem eq_nil_of_zero_first (zero : digits n = '0' :: ds) : ds = [] := by
  by_contra more
  have value : n = digitsValue ds := by
    rw [← digitsValue_digits n, zero]
    rfl
  have all (c : Char) (listed : c ∈ ds) : c.isDigit = true := by
    refine isDigit_of_mem_digits (n := n) ?_
    rw [zero]
    exact List.mem_cons_of_mem _ listed
  have small : n < Nat.pow 10 ds.length := value ▸ digitsValue_lt all
  have short := (length_digits_le_iff (List.length_pos_iff.mpr more)).mpr small
  rw [zero, List.length_cons] at short
  omega

theorem isDigit_of_mem_paddedDigits {width : Nat} (h : c ∈ paddedDigits width n) :
    c.isDigit = true := by
  rcases List.mem_append.mp h with zero | digit
  · rw [List.eq_of_mem_replicate zero]
    rfl
  · exact isDigit_of_mem_digits digit

theorem paddedDigits_ne_nil (width n : Nat) : paddedDigits width n ≠ [] :=
  List.append_ne_nil_of_right_ne_nil _ (digits_ne_nil n)

theorem digitsValue_paddedDigits (width n : Nat) : digitsValue (paddedDigits width n) = n := by
  have zeros (k : Nat) (cs : List Char) :
      digitsValue (List.replicate k '0' ++ cs) = digitsValue cs := by
    induction k with
    | zero => rfl
    | succ k ih => exact ih
  unfold paddedDigits
  rw [zeros, digitsValue_digits]

theorem length_paddedDigits {width : Nat} (some : 0 < width) (small : n < Nat.pow 10 width) :
    (paddedDigits width n).length = width := by
  have short := (length_digits_le_iff some).mpr small
  unfold paddedDigits
  rw [List.length_append, List.length_replicate]
  omega

end TradingLoad.Text
