/-
Module: Quire.Proofs.ShortestDecimals
Purpose: The shortest decimal of a number is rounded to that number.
Main exports: Decimal.Neighbourhood.Holds, Decimal.onGrid_ne_none, Decimal.nearestPattern_of_holds,
  Decimal.ofDecimal_shortest
-/
import Mathlib.Tactic.Ring
import Quire.Decimal.Shortest
import Quire.Proofs.Digits
import Quire.Proofs.Rounding

/-!
The ends of the interval around a number are the middles between its pattern and the two next to it,
and rounding a decimal in the interval gives the number by the law of rounding. That a decimal is
found at all is a matter of sizes. Between two points of the seventeenth grid lies at most one part
in 10 ^ 16 of the number, and the interval is wider: it is one unit wide, or three quarters of one
where the coefficient is a power of two, and there are fewer than 2 ^ 53 units to the number.
-/

namespace Quire

/-! ### Numbers by their coefficients -/

namespace Binary64

/-- How often the smallest unit is doubled to make the unit of a number. -/
def scale (x : Binary64) : Nat :=
  (x.unit + 1074).toNat

theorem unit_eq (x : Binary64) : x.unit = (x.scale : Int) - 1074 := by
  simp only [scale, unit]
  omega

/-- A pattern is its coefficient at its scale. -/
theorem magnitude_eq (x : Binary64) : x.magnitude = x.scale * twoTo 52 + x.coefficient := by
  have width : 0 < twoTo 52 := twoTo_pos 52
  have parts := Nat.div_add_mod' x.magnitude (twoTo 52)
  have scaled : x.scale = max (x.magnitude / twoTo 52) 1 - 1 := by
    simp only [scale, unit]
    omega
  rw [coefficient, scaled]
  split
  · rename_i small
    rw [Nat.div_eq_of_lt small, Nat.mod_eq_of_lt small]
    simp
  · rename_i large
    have some : 1 ≤ x.magnitude / twoTo 52 := Nat.div_pos (Nat.le_of_not_lt large) width
    rw [Nat.max_eq_left some, ← Nat.add_assoc, ← Nat.succ_mul, Nat.succ_eq_add_one,
      Nat.sub_add_cancel some, parts]

theorem coefficient_lt (x : Binary64) : x.coefficient < 2 * twoTo 52 := by
  have rest : x.magnitude % twoTo 52 < twoTo 52 := Nat.mod_lt _ (twoTo_pos 52)
  rw [coefficient]
  split <;> omega

/-- Above the smallest unit a coefficient has its full length. -/
theorem le_coefficient {x : Binary64} (normal : x.scale ≠ 0) : twoTo 52 ≤ x.coefficient := by
  rw [coefficient]
  split
  · rename_i small
    apply absurd _ normal
    simp [scale, unit, Nat.div_eq_of_lt small]
  · exact Nat.le_add_right _ _

theorem coefficient_ne_zero {x : Binary64} (nonzero : x.isZero = false) : x.coefficient ≠ 0 := by
  intro none
  by_cases normal : x.scale = 0
  · have zero := magnitude_eq x
    rw [none, normal, Nat.zero_mul] at zero
    simp [isZero, zero] at nonzero
  · have full := le_coefficient normal
    rw [none] at full
    exact absurd full (Nat.not_le_of_lt (twoTo_pos 52))

theorem sizeInUnits_magnitude (x : Binary64) :
    sizeInUnits x.magnitude = x.coefficient * twoTo x.scale := by
  rw [magnitude_eq]
  exact sizeInUnits_scaled (Nat.le_of_lt x.coefficient_lt) le_coefficient

theorem sizeInUnits_succ (x : Binary64) :
    sizeInUnits (x.magnitude + 1) = (x.coefficient + 1) * twoTo x.scale := by
  rw [magnitude_eq, Nat.add_assoc]
  exact sizeInUnits_scaled (Nat.succ_le_of_lt x.coefficient_lt) fun normal =>
    Nat.le_succ_of_le (le_coefficient normal)

/-- The number before one with the smallest coefficient at its scale is at half the scale. -/
theorem sizeInUnits_pred_of_carry {x : Binary64} (power : x.coefficient = twoTo 52)
    (normal : x.scale ≠ 0) :
    2 * sizeInUnits (x.magnitude - 1) = (2 * x.coefficient - 1) * twoTo x.scale := by
  obtain ⟨scale, next⟩ := Nat.exists_eq_succ_of_ne_zero normal
  have width : 0 < twoTo 52 := twoTo_pos 52
  have before : x.magnitude - 1 = scale * twoTo 52 + (2 * twoTo 52 - 1) := by
    rw [magnitude_eq, next, power, Nat.succ_mul]
    omega
  have size : sizeInUnits (scale * twoTo 52 + (2 * twoTo 52 - 1)) =
      (2 * twoTo 52 - 1) * twoTo scale := sizeInUnits_scaled (by omega) (by omega)
  have double : twoTo (scale + 1) = 2 * twoTo scale := Nat.pow_succ'
  rw [before, size, next, double, power]
  ring

theorem sizeInUnits_pred {x : Binary64} (some : x.coefficient ≠ 0)
    (plain : ¬ (x.coefficient = twoTo 52 ∧ x.scale ≠ 0)) :
    sizeInUnits (x.magnitude - 1) = (x.coefficient - 1) * twoTo x.scale := by
  have before : x.magnitude - 1 = x.scale * twoTo 52 + (x.coefficient - 1) := by
    rw [magnitude_eq]
    omega
  rw [before]
  apply sizeInUnits_scaled (Nat.le_of_lt (Nat.lt_of_le_of_lt (Nat.sub_le _ _) x.coefficient_lt))
  intro normal
  have full := le_coefficient normal
  omega

end Binary64

namespace Decimal

open Binary64

variable {x : Binary64}

/-- The low end of the interval is the middle between a number and the one before it. -/
theorem low_eq (nonzero : x.isZero = false) : (neighbourhood x).low * twoTo x.scale =
    2 * (sizeInUnits (x.magnitude - 1) + sizeInUnits x.magnitude) := by
  have some := coefficient_ne_zero nonzero
  have above : -1074 < x.unit ↔ x.scale ≠ 0 := by
    rw [unit_eq]
    omega
  simp only [neighbourhood, above]
  by_cases carried : x.coefficient = twoTo 52 ∧ x.scale ≠ 0
  · rw [if_pos carried, Nat.mul_add, sizeInUnits_pred_of_carry carried.1 carried.2,
      sizeInUnits_magnitude, ← Nat.mul_assoc, ← Nat.add_mul]
    congr 1
    omega
  · rw [if_neg carried, sizeInUnits_pred some carried, sizeInUnits_magnitude, ← Nat.add_mul,
      ← Nat.mul_assoc]
    congr 1
    omega

/-- The high end of the interval is the middle between a number and the one after it. -/
theorem high_eq (x : Binary64) : (neighbourhood x).high * twoTo x.scale =
    2 * (sizeInUnits x.magnitude + sizeInUnits (x.magnitude + 1)) := by
  rw [sizeInUnits_magnitude, sizeInUnits_succ, neighbourhood]
  ring

/-! ### Decimals in the interval -/

/-- A point of the grid `10 ^ exponent` lies in the interval around a number. -/
def Neighbourhood.Holds (n : Neighbourhood) (point : Nat) (exponent : Int) : Prop :=
  let num := n.num * tenTo (-exponent).toNat
  let den := n.den * tenTo exponent.toNat
  if n.closed then n.low * num ≤ point * den ∧ point * den ≤ n.high * num
  else n.low * num < point * den ∧ point * den < n.high * num

theorem num_mul (x : Binary64) :
    (neighbourhood x).num * twoTo 1076 = (neighbourhood x).den * twoTo x.scale := by
  have unit := x.unit_eq
  rw [neighbourhood, ← twoTo_add, ← twoTo_add]
  congr 1
  omega

theorem quarters_mul (x : Binary64) (quarters : Nat) (exponent : Int) :
    quarters * ((neighbourhood x).num * tenTo (-exponent).toNat) * twoTo 1076 =
      (neighbourhood x).den * (quarters * twoTo x.scale * tenTo (-exponent).toNat) := by
  calc
    _ = quarters * ((neighbourhood x).num * twoTo 1076) * tenTo (-exponent).toNat := by ring
    _ = _ := by
      rw [num_mul]
      ring

theorem point_mul (x : Binary64) (point : Nat) (exponent : Int) :
    point * ((neighbourhood x).den * tenTo exponent.toNat) * twoTo 1076 =
      (neighbourhood x).den * (point * tenTo exponent.toNat * twoTo 1076) := by
  ring

/-- A point of a grid lies in the interval around a number exactly if it does when all is counted in
quarters of the smallest unit. -/
theorem holds_iff (x : Binary64) (point : Nat) (exponent : Int) :
    (neighbourhood x).Holds point exponent ↔
      let low := (neighbourhood x).low * twoTo x.scale * tenTo (-exponent).toNat
      let high := (neighbourhood x).high * twoTo x.scale * tenTo (-exponent).toNat
      let size := point * tenTo exponent.toNat * twoTo 1076
      if (neighbourhood x).closed then low ≤ size ∧ size ≤ high else low < size ∧ size < high := by
  have den : 0 < (neighbourhood x).den := twoTo_pos _
  have factor : 0 < twoTo 1076 := twoTo_pos _
  have below : ∀ quarters, quarters * ((neighbourhood x).num * tenTo (-exponent).toNat) ≤
      point * ((neighbourhood x).den * tenTo exponent.toNat) ↔
        quarters * twoTo x.scale * tenTo (-exponent).toNat ≤
          point * tenTo exponent.toNat * twoTo 1076 := by
    intro quarters
    rw [← Nat.mul_le_mul_right_iff factor, quarters_mul, point_mul, Nat.mul_le_mul_left_iff den]
  have above : ∀ quarters, point * ((neighbourhood x).den * tenTo exponent.toNat) ≤
      quarters * ((neighbourhood x).num * tenTo (-exponent).toNat) ↔
        point * tenTo exponent.toNat * twoTo 1076 ≤
          quarters * twoTo x.scale * tenTo (-exponent).toNat := by
    intro quarters
    rw [← Nat.mul_le_mul_right_iff factor, quarters_mul, point_mul, Nat.mul_le_mul_left_iff den]
  simp only [Neighbourhood.Holds, ← Nat.not_le, below, above]

/-- A decimal in the interval around a number is rounded to that number. -/
theorem nearestPattern_of_holds (nonzero : x.isZero = false) (finite : x.isFinite = true)
    {point : Nat} {exponent : Int} (holds : (neighbourhood x).Holds point exponent) :
    nearestPattern (point * tenTo exponent.toNat) (tenTo (-exponent).toNat) = x.magnitude := by
  have pos : tenTo (-exponent).toNat ≠ 0 := Nat.ne_of_gt (tenTo_pos _)
  have finite := isFinite_iff.1 finite
  have some : 0 < x.magnitude := by simpa [isZero, Nat.pos_iff_ne_zero] using nonzero
  have four : twoTo 1076 = 2 * (2 * twoTo 1074) := by
    have more : twoTo 1076 = twoTo 2 * twoTo 1074 := twoTo_add 2 1074
    have two : twoTo 2 = 2 * 2 := rfl
    rw [more, two, Nat.mul_assoc]
  have low : (neighbourhood x).low * twoTo x.scale * tenTo (-exponent).toNat =
      2 * ((sizeInUnits (x.magnitude - 1) + sizeInUnits x.magnitude) *
        tenTo (-exponent).toNat) := by
    rw [low_eq nonzero, Nat.mul_assoc]
  have high : (neighbourhood x).high * twoTo x.scale * tenTo (-exponent).toNat =
      2 * ((sizeInUnits x.magnitude + sizeInUnits (x.magnitude + 1)) *
        tenTo (-exponent).toNat) := by
    rw [high_eq, Nat.mul_assoc]
  have size : point * tenTo exponent.toNat * twoTo 1076 =
      2 * (2 * (point * tenTo exponent.toNat * twoTo 1074)) := by
    rw [four, Nat.mul_left_comm, Nat.mul_left_comm _ 2]
  have parity : x.coefficient % 2 = x.magnitude % 2 := by
    have even : twoTo 52 = 2 * twoTo 51 := rfl
    rw [magnitude_eq, even, Nat.mul_left_comm, Nat.mul_add_mod]
  have inside := (holds_iff x point exponent).1 holds
  have closed : (neighbourhood x).closed = (x.magnitude % 2 == 0) := by
    rw [neighbourhood, parity]
  simp only [low, high, size, closed, beq_iff_eq] at inside
  apply Nat.le_antisymm
  · apply Nat.le_of_not_lt
    rw [lt_nearestPattern_iff pos finite]
    unfold Passes
    split at inside <;> omega
  · apply Nat.le_of_pred_lt
    rw [Nat.pred_eq_sub_one, lt_nearestPattern_iff pos (by omega)]
    unfold Passes
    rw [Nat.sub_add_cancel some]
    split at inside <;> omega

/-! ### Finding a decimal -/

section

variable {tie : Tie} {n : Neighbourhood} {exponent : Int} {point : Nat}

/-- The point of a grid that comes next below a number or is the number. -/
def Neighbourhood.below (n : Neighbourhood) (exponent : Int) : Nat :=
  n.centre * (n.num * tenTo (-exponent).toNat) / (n.den * tenTo exponent.toNat)

instance (n : Neighbourhood) (point : Nat) (exponent : Int) : Decidable (n.Holds point exponent) :=
  inferInstanceAs (Decidable (if n.closed then
    n.low * (n.num * tenTo (-exponent).toNat) ≤ point * (n.den * tenTo exponent.toNat) ∧
      point * (n.den * tenTo exponent.toNat) ≤ n.high * (n.num * tenTo (-exponent).toNat)
  else
    n.low * (n.num * tenTo (-exponent).toNat) < point * (n.den * tenTo exponent.toNat) ∧
      point * (n.den * tenTo exponent.toNat) < n.high * (n.num * tenTo (-exponent).toNat)))

theorem onGrid_eq (tie : Tie) (n : Neighbourhood) (exponent : Int) : onGrid tie n exponent =
    if n.Holds (n.below exponent) exponent then
      if n.Holds (n.below exponent + 1) exponent then
        match compare (2 * (n.centre * (n.num * tenTo (-exponent).toNat)))
          ((2 * n.below exponent + 1) * (n.den * tenTo exponent.toNat)), tie with
        | .lt, _ => some (n.below exponent)
        | .gt, _ => some (n.below exponent + 1)
        | .eq, .away => some (n.below exponent + 1)
        | .eq, .even => some (n.below exponent + n.below exponent % 2)
      else some (n.below exponent)
    else if n.Holds (n.below exponent + 1) exponent then some (n.below exponent + 1)
    else none :=
  rfl

/-- What is found on a grid lies in the interval. -/
theorem holds_of_onGrid (found : onGrid tie n exponent = some point) : n.Holds point exponent := by
  rw [onGrid_eq] at found
  split at found
  · rename_i low
    split at found
    · rename_i next
      split at found
      · cases found
        exact low
      · cases found
        exact next
      · cases found
        exact next
      · cases found
        rcases Nat.mod_two_eq_zero_or_one (n.below exponent) with even | odd
        · rw [even]
          exact low
        · rw [odd]
          exact next
    · cases found
      exact low
  · split at found
    · rename_i next
      cases found
      exact next
    · cases found

/-- Where nothing is found on a grid, neither point next to the number lies in the interval. -/
theorem not_holds_of_onGrid (missed : onGrid tie n exponent = none) :
    ¬ n.Holds (n.below exponent) exponent ∧ ¬ n.Holds (n.below exponent + 1) exponent := by
  rw [onGrid_eq] at missed
  split at missed
  · split at missed
    · split at missed <;> cases missed
    · cases missed
  · rename_i low
    split at missed
    · cases missed
    · rename_i next
      exact ⟨low, next⟩

/-- If a grid that is tried meets the interval, the decimal found lies in it. -/
theorem holds_of_coarsest {grids step : Nat} (less : step < grids)
    (meets : onGrid tie n (exponent - step) ≠ none) :
    n.Holds (coarsest tie n grids exponent).digits (coarsest tie n grids exponent).exponent := by
  induction grids generalizing step exponent with
  | zero => exact absurd less (Nat.not_lt_zero step)
  | succ grids ih =>
      rw [coarsest]
      split
      · rename_i point found
        exact holds_of_onGrid found
      · rename_i missed
        cases step with
        | zero => exact absurd (by simpa using missed) meets
        | succ step =>
            apply ih (Nat.lt_of_succ_lt_succ less)
            have same : exponent - 1 - step = exponent - (step + 1 : Nat) := by omega
            rwa [same]

end

/-- The power of ten that is said to be below a positive fraction is no larger than it. -/
theorem floorLog10_le {num den : Nat} (pos : num ≠ 0) (pos' : den ≠ 0) :
    den * tenTo (floorLog10 num den).toNat ≤ num * tenTo (-floorLog10 num den).toNat := by
  have one : tenTo 0 = 1 := rfl
  rw [floorLog10]
  split
  · rename_i whole
    have filled : num / den ≠ 0 := Nat.ne_of_gt (Nat.div_pos whole (Nat.pos_of_ne_zero pos'))
    have up : ((digitsOf (num / den)).length - 1 : Int).toNat =
        (digitsOf (num / den)).length - 1 := by omega
    have down : (-((digitsOf (num / den)).length - 1 : Int)).toNat = 0 := by
      have some := List.length_pos_iff.2 (digitsOf_ne_nil (num / den))
      omega
    rw [up, down, one, Nat.mul_one]
    calc
      den * tenTo ((digitsOf (num / den)).length - 1) ≤ den * (num / den) :=
        Nat.mul_le_mul_left den (tenTo_length_le filled)
      _ ≤ num := Nat.mul_div_le num den
  · have up : (-((digitsOf ((den - 1) / num)).length : Int)).toNat = 0 := by omega
    rw [up, Int.neg_neg, Int.toNat_natCast, one, Nat.mul_one]
    have high := lt_tenTo_length ((den - 1) / num)
    rw [Nat.div_lt_iff_lt_mul (Nat.pos_of_ne_zero pos), Nat.mul_comm] at high
    omega

/-- The grid of the seventeenth digit is so fine that its points are no further apart than one part
in 10 ^ 16 of the number. -/
theorem seventeenth_le {num den : Nat} (pos : num ≠ 0) (pos' : den ≠ 0) :
    tenTo 16 * (den * tenTo (floorLog10 num den - 16).toNat) ≤
      num * tenTo (-(floorLog10 num den - 16)).toNat := by
  have low := floorLog10_le pos pos'
  generalize floorLog10 num den = exponent at low
  have places : 16 + (exponent - 16).toNat + (-exponent).toNat =
      exponent.toNat + (-(exponent - 16)).toNat := by omega
  apply Nat.le_of_mul_le_mul_right _ (tenTo_pos (-exponent).toNat)
  calc
    tenTo 16 * (den * tenTo (exponent - 16).toNat) * tenTo (-exponent).toNat =
        den * tenTo (16 + (exponent - 16).toNat + (-exponent).toNat) := by
      rw [tenTo_add, tenTo_add]
      ring
    _ = den * tenTo exponent.toNat * tenTo (-(exponent - 16)).toNat := by
      rw [places, tenTo_add, Nat.mul_assoc]
    _ ≤ num * tenTo (-exponent).toNat * tenTo (-(exponent - 16)).toNat :=
      Nat.mul_le_mul_right _ low
    _ = num * tenTo (-(exponent - 16)).toNat * tenTo (-exponent).toNat :=
      Nat.mul_right_comm _ _ _

/-- Points that lie strictly between the ends of an interval are in it. -/
theorem holds_of_lt {n : Neighbourhood} {point : Nat} {exponent : Int}
    (above : n.low * (n.num * tenTo (-exponent).toNat) < point * (n.den * tenTo exponent.toNat))
    (below : point * (n.den * tenTo exponent.toNat) < n.high * (n.num * tenTo (-exponent).toNat)) :
    n.Holds point exponent := by
  unfold Neighbourhood.Holds
  split
  · exact ⟨Nat.le_of_lt above, Nat.le_of_lt below⟩
  · exact ⟨above, below⟩

/-- Between the ends of the interval there is room for a step of the grid, since a number has fewer
units than the grid has steps to it. -/
theorem step_lt {x : Binary64} (nonzero : x.isZero = false) {num den : Nat} (pos : 0 < num)
    (fine : tenTo 16 * den ≤ (neighbourhood x).centre * num) :
    (neighbourhood x).low * num + den < (neighbourhood x).high * num := by
  have some : num ≤ x.coefficient * num :=
    Nat.le_mul_of_pos_left num (Nat.pos_of_ne_zero (coefficient_ne_zero nonzero))
  have width : twoTo 52 = 4503599627370496 := rfl
  have places : tenTo 16 = 10000000000000000 := rfl
  have most : x.coefficient ≤ 2 * 4503599627370496 := width ▸ Nat.le_of_lt x.coefficient_lt
  have few : x.coefficient * num ≤ 2 * 4503599627370496 * num := Nat.mul_le_mul_right num most
  simp only [neighbourhood, width, places, Nat.add_mul, Nat.mul_assoc] at fine ⊢
  split
  · rename_i power
    rw [power.1] at fine few ⊢
    rw [Nat.sub_mul]
    omega
  · rw [Nat.sub_mul, Nat.mul_assoc]
    omega

/-- A grid as fine as that meets the interval. -/
theorem onGrid_ne_none {x : Binary64} (nonzero : x.isZero = false) (tie : Tie) {exponent : Int}
    (fine : tenTo 16 * ((neighbourhood x).den * tenTo exponent.toNat) ≤
      (neighbourhood x).centre * ((neighbourhood x).num * tenTo (-exponent).toNat)) :
    onGrid tie (neighbourhood x) exponent ≠ none := by
  intro missed
  obtain ⟨low, next⟩ := not_holds_of_onGrid missed
  have num : 0 < (neighbourhood x).num * tenTo (-exponent).toNat :=
    Nat.mul_pos (twoTo_pos _) (tenTo_pos _)
  have den : 0 < (neighbourhood x).den * tenTo exponent.toNat :=
    Nat.mul_pos (twoTo_pos _) (tenTo_pos _)
  have step := step_lt nonzero num fine
  have reached : (neighbourhood x).below exponent *
      ((neighbourhood x).den * tenTo exponent.toNat) ≤
        (neighbourhood x).centre * ((neighbourhood x).num * tenTo (-exponent).toNat) :=
    Nat.div_mul_le_self _ _
  have passed : (neighbourhood x).centre * ((neighbourhood x).num * tenTo (-exponent).toNat) <
      ((neighbourhood x).below exponent + 1) *
        ((neighbourhood x).den * tenTo exponent.toNat) := by
    rw [Nat.mul_comm (_ + 1)]
    exact Nat.lt_mul_div_succ _ den
  have inner : (neighbourhood x).low < (neighbourhood x).centre ∧
      (neighbourhood x).centre < (neighbourhood x).high := by
    have some := coefficient_ne_zero nonzero
    simp only [neighbourhood]
    split <;> omega
  have left := Nat.mul_lt_mul_of_pos_right inner.1 num
  have right := Nat.mul_lt_mul_of_pos_right inner.2 num
  -- the point below is too low, so that the next one is not too high
  have tooLow := mt (fun above => holds_of_lt above (Nat.lt_of_le_of_lt reached right)) low
  have tooHigh := mt (holds_of_lt (Nat.lt_trans left passed)) next
  rw [Nat.succ_mul] at tooHigh
  omega

/-- What is found from the leading digit of a number downwards lies in the interval around it. -/
theorem holds_coarsest (tie : Tie) {x : Binary64} (nonzero : x.isZero = false) :
    let n := neighbourhood x
    let found := coarsest tie n 17 (floorLog10 (n.centre * n.num) n.den)
    n.Holds found.digits found.exponent := by
  have num : (neighbourhood x).centre * (neighbourhood x).num ≠ 0 :=
    Nat.mul_ne_zero (Nat.mul_ne_zero (by decide) (coefficient_ne_zero nonzero))
      (Nat.ne_of_gt (twoTo_pos _))
  have den : (neighbourhood x).den ≠ 0 := Nat.ne_of_gt (twoTo_pos _)
  have fine := seventeenth_le num den
  rw [Nat.mul_assoc] at fine
  have last : 16 < 17 := by decide
  exact holds_of_coarsest last (onGrid_ne_none nonzero tie fine)

/-- Rounding the shortest decimal of a number gives the number. -/
theorem ofDecimal_shortest (tie : Tie) {x : Binary64} (nonzero : x.isZero = false)
    (finite : x.isFinite = true) :
    Binary64.ofDecimal x.negative (shortest tie x).digits (shortest tie x).exponent = x := by
  have rounded := nearestPattern_of_holds nonzero finite (holds_coarsest tie nonzero)
  simp only [shortest]
  generalize coarsest tie (neighbourhood x) 17 _ = found at rounded ⊢
  have whole : Binary64.ofDecimal x.negative found.digits found.exponent = x := by
    rw [ofDecimal_eq_nearest, nearest, rounded, ofMagnitude_magnitude]
  split
  · rename_i zero
    have moved := ofDecimal_mul_tenTo x.negative (found.digits / 10) 1 found.exponent
    have ten : found.digits / 10 * tenTo 1 = found.digits :=
      Nat.div_mul_cancel (Nat.dvd_of_mod_eq_zero zero)
    rw [ten, whole] at moved
    exact moved.symm
  · exact whole

/-- The shortest decimal of a number other than zero has a digit other than zero. -/
theorem shortest_digits_ne_zero (tie : Tie) {x : Binary64} (nonzero : x.isZero = false)
    (finite : x.isFinite = true) : (shortest tie x).digits ≠ 0 := by
  intro none
  have read := ofDecimal_shortest tie nonzero finite
  rw [none, Binary64.ofDecimal, if_pos rfl] at read
  have zero : x.magnitude = 0 := by
    rw [← read, magnitude_ofMagnitude (twoTo_pos 63)]
  simp [isZero, zero] at nonzero

end Decimal

end Quire
