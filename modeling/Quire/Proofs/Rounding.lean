/-
Module: Quire.Proofs.Rounding
Purpose: A fraction is rounded to the number nearest to it, and to the even one of two that are
  equally near.
Main exports: Binary64.lt_roundQuotient_iff, Binary64.floorLog2_bounds, Binary64.Passes,
  Binary64.lt_nearestPattern_iff, Binary64.nearestPattern_mono, Binary64.nearestPattern_size,
  Binary64.ofDecimal_eq_nearest, Binary64.isFinite_ofDecimal_mono, Binary64.ofDecimal_mul_tenTo
-/
import Mathlib.Algebra.Order.Ring.Nat
import Mathlib.Tactic.Ring
import Quire.Proofs.Comparisons

/-!
Patterns are in the order of the numbers they stand for, so rounding is told by the patterns that
its result passes: a fraction is rounded to something above a pattern exactly if it lies beyond the
middle between that pattern and the next, or just there while the next is even. All else follows
from this one law. A larger fraction is not rounded to something smaller, and what is a number
already is left as it is.

Rounding takes place at a scale, the number of times that the smallest unit has to be doubled until
the fraction has no more than the digits of a coefficient. From one power of two to the next the
scale is the same, and there rounding is that of a quotient.
-/

namespace Quire

/-! ### Powers -/

theorem twoTo_pos (exponent : Nat) : 0 < twoTo exponent :=
  Nat.two_pow_pos exponent

theorem twoTo_add (first second : Nat) : twoTo (first + second) = twoTo first * twoTo second :=
  Nat.pow_add 2 first second

theorem twoTo_le_twoTo {first second : Nat} (le : first ≤ second) : twoTo first ≤ twoTo second :=
  Nat.pow_le_pow_right (by decide) le

theorem tenTo_pos (exponent : Nat) : 0 < tenTo exponent :=
  Nat.pow_pos (by decide)

theorem tenTo_add (first second : Nat) : tenTo (first + second) = tenTo first * tenTo second :=
  Nat.pow_add 10 first second

theorem tenTo_le_tenTo {first second : Nat} (le : first ≤ second) : tenTo first ≤ tenTo second :=
  Nat.pow_le_pow_right (by decide) le

namespace Binary64

/-! ### Quotients -/

/-- A quotient is rounded to something above a number if it lies beyond the middle between that and
the next number, or just there while the next number is even. -/
theorem lt_roundQuotient_iff {num den : Nat} (pos : 0 < den) (n : Nat) :
    n < roundQuotient num den ↔
      (2 * n + 1) * den < 2 * num ∨ (2 * n + 1) * den = 2 * num ∧ n % 2 = 1 := by
  have rest : num % den < den := Nat.mod_lt num pos
  have split : den * (num / den) + num % den = num := Nat.div_add_mod num den
  have middle : (2 * n + 1) * den = 2 * (den * n) + den := by ring
  rw [middle]
  rcases Nat.lt_trichotomy n (num / den) with below | same | above
  · have room : den * n + den ≤ den * (num / den) := by
      rw [← Nat.mul_succ]
      exact Nat.mul_le_mul_left den below
    have passed : n < roundQuotient num den := by
      simp only [roundQuotient]
      split_ifs <;> omega
    have beyond : 2 * (den * n) + den < 2 * num := by omega
    exact ⟨fun _ => .inl beyond, fun _ => passed⟩
  · simp only [roundQuotient, ← same] at split ⊢
    split_ifs <;> omega
  · have room : den * (num / den) + den ≤ den * n := by
      rw [← Nat.mul_succ]
      exact Nat.mul_le_mul_left den above
    have unpassed : ¬ n < roundQuotient num den := by
      simp only [roundQuotient]
      split_ifs <;> omega
    have short : ¬ 2 * (den * n) + den < 2 * num ∧ 2 * (den * n) + den ≠ 2 * num := by omega
    exact ⟨fun passed => absurd passed unpassed, fun beyond => by omega⟩

/-- A quotient that is at most a number is not rounded to something above it. -/
theorem roundQuotient_le {num den n : Nat} (pos : 0 < den) (le : num ≤ n * den) :
    roundQuotient num den ≤ n := by
  have middle : (2 * n + 1) * den = 2 * (n * den) + den := by ring
  apply Nat.le_of_not_lt
  rw [lt_roundQuotient_iff pos, middle]
  omega

/-- A quotient that is at least a number is not rounded to something below it. -/
theorem le_roundQuotient {num den n : Nat} (pos : 0 < den) (le : n * den ≤ num) :
    n ≤ roundQuotient num den := by
  cases n with
  | zero => exact Nat.zero_le _
  | succ n =>
      have middle : (2 * n + 1) * den + den = 2 * ((n + 1) * den) := by ring
      apply (lt_roundQuotient_iff pos n).2
      omega

theorem roundQuotient_mul_right {factor : Nat} (pos : 0 < factor) (num den : Nat) :
    roundQuotient (num * factor) (den * factor) = roundQuotient num den := by
  have smaller : ∀ a b : Nat, 2 * (a * factor) < b * factor ↔ 2 * a < b := by
    intro a b
    rw [← Nat.mul_assoc, Nat.mul_lt_mul_right pos]
  have larger : ∀ a b : Nat, b * factor < 2 * (a * factor) ↔ b < 2 * a := by
    intro a b
    rw [← Nat.mul_assoc, Nat.mul_lt_mul_right pos]
  simp only [roundQuotient, Nat.mul_div_mul_right num den pos, Nat.mul_mod_mul_right, smaller,
    larger]

/-! ### Scales -/

/-- An inequality between fractions scaled by a power of two may be scaled further. -/
theorem scaled_lt_iff {exponent : Int} {up down : Nat} (scaled : exponent + down = up)
    (num den : Nat) : num * twoTo (-exponent).toNat < den * twoTo exponent.toNat ↔
      num * twoTo down < den * twoTo up := by
  obtain ⟨more, left, right⟩ :
      ∃ more, down = (-exponent).toNat + more ∧ up = exponent.toNat + more :=
    ⟨down - (-exponent).toNat, by omega, by omega⟩
  rw [left, right, twoTo_add, twoTo_add, ← Nat.mul_assoc, ← Nat.mul_assoc,
    Nat.mul_lt_mul_right (twoTo_pos more)]

/-- A positive fraction lies between the power of two that is said to be below it and the next. -/
theorem floorLog2_bounds {num den : Nat} (pos : num ≠ 0) (pos' : den ≠ 0) {up down : Nat}
    (scaled : floorLog2 num den + down = up) :
    den * twoTo up ≤ num * twoTo down ∧ num * twoTo down < den * twoTo (up + 1) := by
  have numLow : twoTo num.log2 ≤ num := Nat.log2_self_le pos
  have numHigh : num < twoTo (num.log2 + 1) := Nat.lt_log2_self
  have denLow : twoTo den.log2 ≤ den := Nat.log2_self_le pos'
  have denHigh : den < twoTo (den.log2 + 1) := Nat.lt_log2_self
  simp only [floorLog2] at scaled
  split at scaled
  · rename_i below
    have carried : (num.log2 : Int) - den.log2 + down = (up + 1 : Nat) := by omega
    rw [scaled_lt_iff carried] at below
    refine ⟨Nat.le_of_lt ?_, below⟩
    calc
      den * twoTo up < twoTo (den.log2 + 1) * twoTo up :=
        Nat.mul_lt_mul_of_pos_right denHigh (twoTo_pos up)
      _ = twoTo num.log2 * twoTo down := by
        rw [← twoTo_add, ← twoTo_add]
        congr 1
        omega
      _ ≤ num * twoTo down := Nat.mul_le_mul_right _ numLow
  · rename_i above
    rw [scaled_lt_iff scaled] at above
    refine ⟨Nat.le_of_not_lt above, ?_⟩
    calc
      num * twoTo down < twoTo (num.log2 + 1) * twoTo down :=
        Nat.mul_lt_mul_of_pos_right numHigh (twoTo_pos down)
      _ = twoTo den.log2 * twoTo (up + 1) := by
        rw [← twoTo_add, ← twoTo_add]
        congr 1
        omega
      _ ≤ den * twoTo (up + 1) := Nat.mul_le_mul_right _ denLow

/-- How often the smallest unit is doubled to make the unit at which a fraction is rounded. -/
def scaleOf (num den : Nat) : Nat :=
  (floorLog2 num den + 1022).toNat

/-- At its scale a fraction is less than twice the smallest coefficient of full length, and at least
that coefficient unless the unit is the smallest. -/
theorem scaleOf_bounds {num den : Nat} (pos : num ≠ 0) (pos' : den ≠ 0) :
    num * twoTo 1074 < 2 * twoTo 52 * (den * twoTo (scaleOf num den)) ∧
      (scaleOf num den ≠ 0 → twoTo 52 * (den * twoTo (scaleOf num den)) ≤ num * twoTo 1074) := by
  have double : 2 * twoTo 52 = twoTo 53 := by decide
  rw [double, Nat.mul_left_comm (twoTo 53), Nat.mul_left_comm (twoTo 52), ← twoTo_add, ← twoTo_add]
  by_cases small : floorLog2 num den + 1022 ≤ 0
  · have zero : scaleOf num den = 0 := Int.toNat_of_nonpos small
    obtain ⟨more, up, scaled⟩ :
        ∃ more up : Nat, floorLog2 num den + (1074 + more : Nat) = up :=
      ⟨(floorLog2 num den).natAbs, (floorLog2 num den + (1074 + (floorLog2 num den).natAbs)).toNat,
        by omega⟩
    rw [zero]
    refine ⟨?_, fun other => absurd rfl other⟩
    apply Nat.lt_of_mul_lt_mul_right (a := twoTo more)
    calc
      num * twoTo 1074 * twoTo more = num * twoTo (1074 + more) := by
        rw [Nat.mul_assoc, ← twoTo_add]
      _ < den * twoTo (up + 1) := (floorLog2_bounds pos pos' scaled).2
      _ ≤ den * twoTo (53 + 0 + more) := Nat.mul_le_mul_left den (twoTo_le_twoTo (by omega))
      _ = den * twoTo (53 + 0) * twoTo more := by rw [twoTo_add (53 + 0), Nat.mul_assoc]
  · have scaled : floorLog2 num den + (1074 : Nat) = (52 + scaleOf num den : Nat) := by
      simp only [scaleOf]
      omega
    obtain ⟨low, high⟩ := floorLog2_bounds pos pos' scaled
    refine ⟨?_, fun _ => low⟩
    rwa [Nat.add_right_comm] at high

/-- The coefficient at the scale of a fraction. -/
def scaledCoefficient (num den : Nat) : Nat :=
  roundQuotient (num * twoTo 1074) (den * twoTo (scaleOf num den))

/-- A pattern is the scale and the coefficient at it, one after the other. -/
theorem nearestPattern_eq {num den : Nat} (pos : num ≠ 0) :
    nearestPattern num den =
      min (scaleOf num den * twoTo 52 + scaledCoefficient num den) infinityPattern := by
  have unit : max (floorLog2 num den - 52) (-1074) = scaleOf num den - 1074 := by
    simp only [scaleOf]
    omega
  have place : ((scaleOf num den : Int) - 1074 + 1074).toNat = scaleOf num den := by omega
  have coefficient : roundQuotient (num * twoTo (-((scaleOf num den : Int) - 1074)).toNat)
      (den * twoTo ((scaleOf num den : Int) - 1074).toNat) = scaledCoefficient num den := by
    obtain ⟨more, left, right⟩ :
        ∃ more, 1074 = (-((scaleOf num den : Int) - 1074)).toNat + more ∧
          scaleOf num den = ((scaleOf num den : Int) - 1074).toNat + more :=
      ⟨min 1074 (scaleOf num den), by omega, by omega⟩
    rw [scaledCoefficient, ← roundQuotient_mul_right (twoTo_pos more)]
    rw [Nat.mul_assoc, Nat.mul_assoc, ← twoTo_add, ← twoTo_add, ← left, ← right]
  simp only [nearestPattern, if_neg pos, unit, place, coefficient]

/-- The coefficient at the scale of a fraction is at most twice the smallest of full length, and at
least that unless the unit is the smallest. -/
theorem scaledCoefficient_bounds {num den : Nat} (pos : num ≠ 0) (pos' : den ≠ 0) :
    scaledCoefficient num den ≤ 2 * twoTo 52 ∧
      (scaleOf num den ≠ 0 → twoTo 52 ≤ scaledCoefficient num den) := by
  obtain ⟨high, low⟩ := scaleOf_bounds pos pos'
  have unit : 0 < den * twoTo (scaleOf num den) :=
    Nat.mul_pos (Nat.pos_of_ne_zero pos') (twoTo_pos _)
  exact ⟨roundQuotient_le unit (Nat.le_of_lt high),
    fun normal => le_roundQuotient unit (low normal)⟩

/-! ### Sizes -/

/-- Up to the scale of a coefficient the size of its pattern is its multiple of the smallest
unit. -/
theorem sizeInUnits_scaled {scale coefficient : Nat} (high : coefficient ≤ 2 * twoTo 52)
    (low : scale ≠ 0 → twoTo 52 ≤ coefficient) :
    sizeInUnits (scale * twoTo 52 + coefficient) = coefficient * twoTo scale := by
  have one : twoTo 0 = 1 := rfl
  have width : 0 < twoTo 52 := twoTo_pos 52
  by_cases short : coefficient < twoTo 52
  · have zero : scale = 0 := by
      by_contra normal
      exact absurd (low normal) (Nat.not_le_of_lt short)
    rw [zero, Nat.zero_mul, Nat.zero_add, sizeInUnits_subnormal short, one, Nat.mul_one]
  · obtain ⟨fraction, rfl⟩ := Nat.exists_eq_add_of_le (Nat.le_of_not_lt short)
    have most : fraction ≤ twoTo 52 := by omega
    rcases Nat.lt_or_eq_of_le most with below | carried
    · have place : scale * twoTo 52 + (twoTo 52 + fraction) =
          (scale + 1) * twoTo 52 + fraction := by ring
      rw [place, sizeInUnits_normal scale below]
    · have place : scale * twoTo 52 + (twoTo 52 + fraction) = (scale + 1 + 1) * twoTo 52 + 0 := by
        rw [carried]
        ring
      rw [place, sizeInUnits_normal (scale + 1) width, carried, twoTo_add scale 1]
      have two : twoTo 1 = 2 := rfl
      rw [two]
      ring

/-! ### Patterns -/

/-- A fraction passes a pattern: it lies beyond the middle between the pattern and the next, or just
there while the next pattern is even. -/
def Passes (num den pattern : Nat) : Prop :=
  let middle := (sizeInUnits pattern + sizeInUnits (pattern + 1)) * den
  middle < 2 * (num * twoTo 1074) ∨ middle = 2 * (num * twoTo 1074) ∧ pattern % 2 = 1

theorem passes_of_le {num den pattern : Nat} (pos : den ≠ 0)
    (le : sizeInUnits (pattern + 1) * den ≤ num * twoTo 1074) : Passes num den pattern := by
  have less := Nat.mul_lt_mul_of_pos_right (sizeInUnits_lt_succ pattern) (Nat.pos_of_ne_zero pos)
  left
  rw [Nat.add_mul]
  omega

theorem not_passes_of_le {num den pattern : Nat} (pos : den ≠ 0)
    (le : num * twoTo 1074 ≤ sizeInUnits pattern * den) : ¬ Passes num den pattern := by
  have less := Nat.mul_lt_mul_of_pos_right (sizeInUnits_lt_succ pattern) (Nat.pos_of_ne_zero pos)
  simp only [Passes, Nat.add_mul]
  omega

section

variable {num den pattern : Nat}

/-- A fraction passes all patterns below its own scale. -/
theorem passes_of_before (pos : num ≠ 0) (pos' : den ≠ 0) (normal : scaleOf num den ≠ 0)
    (before : pattern < scaleOf num den * twoTo 52 + twoTo 52) : Passes num den pattern := by
  apply passes_of_le pos'
  have double : twoTo 52 ≤ 2 * twoTo 52 := by omega
  calc
    sizeInUnits (pattern + 1) * den ≤ sizeInUnits (scaleOf num den * twoTo 52 + twoTo 52) * den :=
      Nat.mul_le_mul_right den (sizeInUnits_strictMono.monotone before)
    _ = twoTo 52 * (den * twoTo (scaleOf num den)) := by
      rw [sizeInUnits_scaled double fun _ => Nat.le_refl _]
      ring
    _ ≤ num * twoTo 1074 := (scaleOf_bounds pos pos').2 normal

/-- A fraction passes no pattern beyond its own scale. -/
theorem not_passes_of_beyond (pos : num ≠ 0) (pos' : den ≠ 0)
    (beyond : scaleOf num den * twoTo 52 + 2 * twoTo 52 ≤ pattern) : ¬ Passes num den pattern := by
  apply not_passes_of_le pos'
  have double : twoTo 52 ≤ 2 * twoTo 52 := by omega
  calc
    num * twoTo 1074 ≤ 2 * twoTo 52 * (den * twoTo (scaleOf num den)) :=
      Nat.le_of_lt (scaleOf_bounds pos pos').1
    _ = sizeInUnits (scaleOf num den * twoTo 52 + 2 * twoTo 52) * den := by
      rw [sizeInUnits_scaled (Nat.le_refl _) fun _ => double]
      ring
    _ ≤ sizeInUnits pattern * den :=
      Nat.mul_le_mul_right den (sizeInUnits_strictMono.monotone beyond)

/-- At its own scale a fraction passes a pattern if the quotient passes the coefficient. -/
theorem passes_scaled_iff {coefficient : Nat} (pos' : den ≠ 0)
    (high : coefficient < 2 * twoTo 52) (low : scaleOf num den ≠ 0 → twoTo 52 ≤ coefficient) :
    Passes num den (scaleOf num den * twoTo 52 + coefficient) ↔
      coefficient < scaledCoefficient num den := by
  have unit : 0 < den * twoTo (scaleOf num den) :=
    Nat.mul_pos (Nat.pos_of_ne_zero pos') (twoTo_pos _)
  have here := sizeInUnits_scaled (Nat.le_of_lt high) low
  have next := sizeInUnits_scaled (Nat.succ_le_of_lt high) fun normal =>
    Nat.le_succ_of_le (low normal)
  have middle : (coefficient * twoTo (scaleOf num den) +
      (coefficient + 1) * twoTo (scaleOf num den)) * den =
        (2 * coefficient + 1) * (den * twoTo (scaleOf num den)) := by ring
  have parity : (scaleOf num den * twoTo 52 + coefficient) % 2 = coefficient % 2 := by
    have even : twoTo 52 = 2 * twoTo 51 := by decide
    rw [even, Nat.mul_left_comm, Nat.mul_add_mod]
  rw [scaledCoefficient, lt_roundQuotient_iff unit, Passes, Nat.add_assoc, here, next, middle,
    parity]

/-- A fraction is rounded to something above a pattern exactly if it passes the pattern. -/
theorem lt_nearestPattern_iff (pos' : den ≠ 0) (finite : pattern < infinityPattern) :
    pattern < nearestPattern num den ↔ Passes num den pattern := by
  by_cases zero : num = 0
  · have stays : ¬ Passes num den pattern := not_passes_of_le pos' (by simp [zero])
    rw [nearestPattern, if_pos zero]
    exact ⟨fun passed => absurd passed (Nat.not_lt_zero _), fun passed => absurd passed stays⟩
  · obtain ⟨high, low⟩ := scaledCoefficient_bounds zero pos'
    rw [nearestPattern_eq zero, Nat.lt_min, and_iff_left finite]
    by_cases beyond : scaleOf num den * twoTo 52 + 2 * twoTo 52 ≤ pattern
    · have stays := not_passes_of_beyond zero pos' beyond
      exact ⟨fun passed => by omega, fun passed => absurd passed stays⟩
    by_cases before : scaleOf num den ≠ 0 ∧ pattern < scaleOf num den * twoTo 52 + twoTo 52
    · have enough := low before.1
      exact ⟨fun _ => passes_of_before zero pos' before.1 before.2, fun _ => by omega⟩
    · have normal : scaleOf num den ≠ 0 → scaleOf num den * twoTo 52 + twoTo 52 ≤ pattern :=
        fun normal => Nat.le_of_not_lt fun less => before ⟨normal, less⟩
      have reached : scaleOf num den * twoTo 52 ≤ pattern := by
        by_cases smallest : scaleOf num den = 0
        · rw [smallest, Nat.zero_mul]
          exact Nat.zero_le pattern
        · exact Nat.le_of_add_right_le (normal smallest)
      obtain ⟨coefficient, rfl⟩ := Nat.exists_eq_add_of_le reached
      rw [passes_scaled_iff pos' (by omega) fun other => Nat.le_of_add_le_add_left (normal other)]
      exact Nat.add_lt_add_iff_left

theorem nearestPattern_le (num den : Nat) : nearestPattern num den ≤ infinityPattern := by
  by_cases zero : num = 0
  · rw [nearestPattern, if_pos zero]
    exact Nat.zero_le _
  · rw [nearestPattern_eq zero]
    exact Nat.min_le_right _ _

/-- A larger fraction passes all patterns that a smaller one does. -/
theorem Passes.mono {num' den' : Nat} (pos : den ≠ 0) (pos' : den' ≠ 0)
    (le : num * den' ≤ num' * den) (passed : Passes num den pattern) :
    Passes num' den' pattern := by
  have scaled : 2 * (num * twoTo 1074) * den' ≤ 2 * (num' * twoTo 1074) * den := by
    have more := Nat.mul_le_mul_left (2 * twoTo 1074) le
    calc
      2 * (num * twoTo 1074) * den' = 2 * twoTo 1074 * (num * den') := by ring
      _ ≤ 2 * twoTo 1074 * (num' * den) := more
      _ = 2 * (num' * twoTo 1074) * den := by ring
  unfold Passes at passed ⊢
  generalize sizeInUnits pattern + sizeInUnits (pattern + 1) = sum at *
  have across : sum * den * den' = sum * den' * den := Nat.mul_right_comm sum den den'
  rcases passed with beyond | ⟨middle, odd⟩
  · left
    apply Nat.lt_of_mul_lt_mul_right (a := den)
    rw [← across]
    exact Nat.lt_of_lt_of_le (Nat.mul_lt_mul_of_pos_right beyond (Nat.pos_of_ne_zero pos')) scaled
  · have reached : sum * den' ≤ 2 * (num' * twoTo 1074) := by
      apply Nat.le_of_mul_le_mul_right _ (Nat.pos_of_ne_zero pos)
      rw [← across, middle]
      exact scaled
    rcases Nat.lt_or_eq_of_le reached with beyond | middle
    · exact .inl beyond
    · exact .inr ⟨middle, odd⟩

/-- A larger fraction is not rounded to something smaller. -/
theorem nearestPattern_mono {num' den' : Nat} (pos : den ≠ 0) (pos' : den' ≠ 0)
    (le : num * den' ≤ num' * den) : nearestPattern num den ≤ nearestPattern num' den' := by
  apply Nat.le_of_not_lt
  intro less
  have finite := Nat.lt_of_lt_of_le less (nearestPattern_le num den)
  have passed := ((lt_nearestPattern_iff pos finite).1 less).mono pos pos' le
  exact absurd ((lt_nearestPattern_iff pos' finite).2 passed) (Nat.lt_irrefl _)

/-- What is rounded to a pattern passes the patterns below it and does not pass it. -/
theorem nearestPattern_eq_iff (pos : den ≠ 0) (finite : pattern < infinityPattern) :
    nearestPattern num den = pattern ↔
      (∀ below < pattern, Passes num den below) ∧ ¬ Passes num den pattern := by
  rw [← lt_nearestPattern_iff pos finite]
  constructor
  · rintro rfl
    refine ⟨fun below less => ?_, Nat.lt_irrefl _⟩
    exact (lt_nearestPattern_iff pos (Nat.lt_trans less finite)).1 less
  · rintro ⟨passed, stays⟩
    apply Nat.le_antisymm (Nat.le_of_not_lt stays)
    apply Nat.le_of_not_lt
    intro less
    exact absurd ((lt_nearestPattern_iff pos (Nat.lt_trans less finite)).2 (passed _ less))
      (Nat.lt_irrefl _)

/-- A fraction that is the size of a finite number is rounded to that number. -/
theorem nearestPattern_size (pos : den ≠ 0) (finite : pattern < infinityPattern)
    (size : num * twoTo 1074 = sizeInUnits pattern * den) : nearestPattern num den = pattern := by
  rw [nearestPattern_eq_iff pos finite]
  constructor
  · intro below less
    apply passes_of_le pos
    rw [size]
    exact Nat.mul_le_mul_right den (sizeInUnits_strictMono.monotone less)
  · exact not_passes_of_le pos (Nat.le_of_eq size)

end

/-! ### Numbers -/

theorem toNat_ofMagnitude {negative : Bool} {magnitude : Nat} (small : magnitude < twoTo 63) :
    (ofMagnitude negative magnitude).bits.toNat =
      if negative then twoTo 63 + magnitude else magnitude := by
  have width : 2 ^ 64 = twoTo 63 + twoTo 63 := by decide
  rw [ofMagnitude, UInt64.toNat_ofNat', width]
  apply Nat.mod_eq_of_lt
  split <;> omega

/-- A number is put together from its sign and the rest of its pattern. -/
theorem magnitude_ofMagnitude {negative : Bool} {magnitude : Nat} (small : magnitude < twoTo 63) :
    (ofMagnitude negative magnitude).magnitude = magnitude := by
  rw [Binary64.magnitude, toNat_ofMagnitude small]
  cases negative with
  | false => exact Nat.mod_eq_of_lt small
  | true => simp [Nat.mod_eq_of_lt small]

@[simp] theorem ofMagnitude_magnitude (x : Binary64) : ofMagnitude x.negative x.magnitude = x := by
  have small : x.magnitude < twoTo 63 := Nat.mod_lt _ (twoTo_pos 63)
  obtain ⟨bits⟩ := x
  have bound : bits.toNat < twoTo 63 + twoTo 63 := bits.toNat_lt
  rw [mk.injEq, ← UInt64.toNat_inj]
  refine (toNat_ofMagnitude small).trans ?_
  by_cases signed : twoTo 63 ≤ bits.toNat
  · have rest : bits.toNat % twoTo 63 = bits.toNat - twoTo 63 := by
      rw [Nat.mod_eq_sub_mod signed]
      exact Nat.mod_eq_of_lt (by omega)
    simp only [Binary64.negative, Binary64.magnitude, signed, decide_true, if_true, rest]
    omega
  · simp only [Binary64.negative, Binary64.magnitude, signed, decide_false, if_false,
      Bool.false_eq_true]
    exact Nat.mod_eq_of_lt (Nat.lt_of_not_le signed)

theorem infinityPattern_lt : infinityPattern < twoTo 63 := by
  decide

theorem isFinite_iff {x : Binary64} : x.isFinite = true ↔ x.magnitude < infinityPattern :=
  decide_eq_true_iff

theorem isFinite_ofMagnitude {negative : Bool} {magnitude : Nat}
    (most : magnitude ≤ infinityPattern) :
    (ofMagnitude negative magnitude).isFinite = decide (magnitude < infinityPattern) := by
  rw [isFinite, magnitude_ofMagnitude (Nat.lt_of_le_of_lt most infinityPattern_lt)]

theorem isFinite_nearest (negative : Bool) (num den : Nat) :
    (nearest negative num den).isFinite = decide (nearestPattern num den < infinityPattern) :=
  isFinite_ofMagnitude (nearestPattern_le num den)

/-! ### Decimals -/

/-- The exponents that are settled before any power is taken are settled as rounding would do it. -/
theorem ofDecimal_eq_nearest (negative : Bool) (digits : Nat) (exponent : Int) :
    ofDecimal negative digits exponent =
      nearest negative (digits * tenTo exponent.toNat) (tenTo (-exponent).toNat) := by
  have pos : tenTo (-exponent).toNat ≠ 0 := Nat.ne_of_gt (tenTo_pos _)
  simp only [ofDecimal, nearest]
  split_ifs with zero large small
  · simp [nearestPattern, zero]
  · congr 1
    apply Nat.le_antisymm _ (nearestPattern_le _ _)
    have whole : tenTo (-exponent).toNat = 1 := by
      have none : (-exponent).toNat = 0 := by omega
      rw [none]
      rfl
    have high : tenTo 400 ≤ tenTo exponent.toNat := tenTo_le_tenTo (by omega)
    have beyond : infinityPattern = nearestPattern (tenTo 400) 1 := by decide +kernel
    rw [beyond]
    apply nearestPattern_mono (by decide) pos
    calc
      tenTo 400 * tenTo (-exponent).toNat = tenTo 400 * 1 := by rw [whole]
      _ ≤ tenTo exponent.toNat * 1 := Nat.mul_le_mul_right 1 high
      _ ≤ digits * tenTo exponent.toNat * 1 :=
        Nat.mul_le_mul_right 1 (Nat.le_mul_of_pos_left _ (Nat.pos_of_ne_zero zero))
  · congr 1
    have tiny : nearestPattern 1 (tenTo 400) = 0 := by decide +kernel
    apply Eq.symm
    apply Nat.eq_zero_of_le_zero
    rw [← tiny]
    apply nearestPattern_mono pos (by decide +kernel)
    have whole : tenTo exponent.toNat = 1 := by
      have none : exponent.toNat = 0 := by omega
      rw [none]
      rfl
    have few : digits ≤ tenTo (digits.log2 + 1) :=
      Nat.le_trans (Nat.le_of_lt Nat.lt_log2_self) (Nat.pow_le_pow_left (by decide) _)
    calc
      digits * tenTo exponent.toNat * tenTo 400 = digits * tenTo 400 := by rw [whole, Nat.mul_one]
      _ ≤ tenTo (digits.log2 + 1) * tenTo 400 := Nat.mul_le_mul_right _ few
      _ = tenTo (digits.log2 + 1 + 400) := (tenTo_add _ _).symm
      _ ≤ 1 * tenTo (-exponent).toNat := by
        rw [Nat.one_mul]
        exact tenTo_le_tenTo (by omega)
  · rfl

/-- What is at most as large as a decimal that is rounded to a finite number is rounded to one as
well. -/
theorem isFinite_ofDecimal_mono {negative negative' : Bool} {digits digits' : Nat}
    {exponent exponent' : Int}
    (le : digits * tenTo exponent.toNat * tenTo (-exponent').toNat ≤
      digits' * tenTo exponent'.toNat * tenTo (-exponent).toNat)
    (finite : (ofDecimal negative' digits' exponent').isFinite = true) :
    (ofDecimal negative digits exponent).isFinite = true := by
  rw [ofDecimal_eq_nearest, isFinite_nearest, decide_eq_true_eq] at finite ⊢
  exact Nat.lt_of_le_of_lt (nearestPattern_mono (Nat.ne_of_gt (tenTo_pos _))
    (Nat.ne_of_gt (tenTo_pos _)) le) finite

/-- Zeros at the end of the digits count as much as the exponent would. -/
theorem ofDecimal_mul_tenTo (negative : Bool) (digits zeros : Nat) (exponent : Int) :
    ofDecimal negative (digits * tenTo zeros) exponent =
      ofDecimal negative digits (exponent + zeros) := by
  have pos : tenTo (-exponent).toNat ≠ 0 := Nat.ne_of_gt (tenTo_pos _)
  have pos' : tenTo (-(exponent + zeros)).toNat ≠ 0 := Nat.ne_of_gt (tenTo_pos _)
  have places : zeros + exponent.toNat + (-(exponent + zeros)).toNat =
      (exponent + zeros).toNat + (-exponent).toNat := by omega
  have same : digits * tenTo zeros * tenTo exponent.toNat * tenTo (-(exponent + zeros)).toNat =
      digits * tenTo (exponent + zeros).toNat * tenTo (-exponent).toNat := by
    calc
      _ = digits * tenTo (zeros + exponent.toNat + (-(exponent + zeros)).toNat) := by
        rw [tenTo_add, tenTo_add]
        ring
      _ = _ := by rw [places, tenTo_add, Nat.mul_assoc]
  rw [ofDecimal_eq_nearest, ofDecimal_eq_nearest, nearest, nearest,
    Nat.le_antisymm (nearestPattern_mono pos pos' (Nat.le_of_eq same))
      (nearestPattern_mono pos' pos (Nat.le_of_eq same.symm))]

end Binary64

end Quire
