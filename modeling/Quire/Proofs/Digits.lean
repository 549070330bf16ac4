/-
Module: Quire.Proofs.Digits
Purpose: The digits of a number are read back as that number, and none of them is idle.
Main exports: Text.digitsValue_append, Text.digitsValue_digitsOf, Decimal.head?_digitsOf,
  Decimal.digitRun_append
-/
import Quire.Decimal
import Quire.Decimal.Literal

namespace Quire

namespace Text

theorem digitsValue_eq (digits : List Char) : digitsValue digits = Nat.ofDigitChars 10 digits 0 :=
  Nat.ofDigitChars_eq_foldl.symm

/-- Digits in front of others count as many times more as there are places behind them. -/
theorem digitsValue_append (digits others : List Char) :
    digitsValue (digits ++ others) =
      digitsValue digits * tenTo others.length + digitsValue others := by
  rw [digitsValue_eq, digitsValue_eq, digitsValue_eq, Nat.ofDigitChars_append,
    Nat.ofDigitChars_eq_ofDigitChars_zero, Nat.mul_comm]
  rfl

theorem digitsValue_zeros (count : Nat) : digitsValue (List.replicate count '0') = 0 := by
  rw [digitsValue_eq, Nat.ofDigitChars_replicate_zero, Nat.mul_zero]

@[simp] theorem digitsValue_digitsOf (n : Nat) : digitsValue (Decimal.digitsOf n) = n := by
  rw [digitsValue_eq]
  exact Nat.ofDigitChars_ten_toDigits

end Text

namespace Decimal

theorem digitsOf_ne_nil (n : Nat) : digitsOf n ≠ [] :=
  Nat.toDigits_ne_nil

theorem isDigit_of_mem_digitsOf {n : Nat} : ∀ c ∈ digitsOf n, c.isDigit = true :=
  fun _ => Nat.isDigit_of_mem_toDigits (by decide) (by decide)

/-- The first digit of a number is no zero, unless the number is zero. -/
theorem head?_digitsOf {n : Nat} (pos : n ≠ 0) : (digitsOf n).head? ≠ some '0' := by
  induction n using Nat.strongRecOn with
  | _ n ih =>
      rw [digitsOf, Nat.toDigits_eq_if (by decide)]
      split
      · rename_i single
        have marked : ∀ digit < 10, digit ≠ 0 → some (Nat.digitChar digit) ≠ some '0' := by decide
        exact marked n single pos
      · rename_i more
        have front : (Nat.toDigits 10 (n / 10)).head?.isSome = true := by
          simp [Nat.toDigits_ne_nil]
        rw [List.head?_append, Option.or_of_isSome front]
        exact ih (n / 10) (by omega) (by omega)

theorem lt_tenTo_length (n : Nat) : n < tenTo (digitsOf n).length :=
  (Nat.length_toDigits_le_iff (by decide) Nat.length_toDigits_pos).1 (Nat.le_refl _)

/-- A number has no more digits than it needs. -/
theorem tenTo_length_le {n : Nat} (pos : n ≠ 0) : tenTo ((digitsOf n).length - 1) ≤ n := by
  cases Nat.eq_zero_or_pos ((digitsOf n).length - 1) with
  | inl single =>
      rw [single]
      exact Nat.pos_of_ne_zero pos
  | inr more =>
      have fewer : ¬ (digitsOf n).length ≤ (digitsOf n).length - 1 := by omega
      exact Nat.le_of_not_lt (mt (Nat.length_toDigits_le_iff (by decide) more).2 fewer)

/-- Digits are taken as far as they go. -/
theorem digitRun_append {cs rest : List Char} (digits : ∀ c ∈ cs, c.isDigit = true)
    (stop : ∀ c ∈ rest.head?, c.isDigit = false) : digitRun (cs ++ rest) = (cs, rest) := by
  have none : rest.takeWhile Char.isDigit = [] ∧ rest.dropWhile Char.isDigit = rest := by
    cases rest with
    | nil => exact ⟨rfl, rfl⟩
    | cons c rest =>
        have other := stop c rfl
        simp [other]
  rw [digitRun, List.takeWhile_append_of_pos digits, List.dropWhile_append_of_pos digits, none.1,
    none.2, List.append_nil]

end Decimal

end Quire
