/-
Module: Quire.Proofs.Comparisons
Purpose: The operators that order values fit together: turned around they are each other's mirror
  images, and values that do not mix two texts with something else are ordered as a line is.
Main exports: Binary64.inUnits, Binary64.comparison_eq_compare, Value.place, Value.comparison_swap,
  Value.comparison_then, comparisons_coherent
-/
import Mathlib.Algebra.Order.Group.Int
import Mathlib.Order.Compare
import Mathlib.Order.Monotone.Odd
import Quire.Condition

/-!
Two texts are ordered by their characters and all other pairs by their places on the number line,
where null, arrays, objects, and texts and numbers that denote no place have none. Each of the two
orders is total where it is defined. They meet when two of three values are texts, and then "10" is
below "9" as text and above 9 as a number.

The places of numbers are their patterns and not their sizes, but both are in the same order: every
number is a multiple of the smallest unit, and from one pattern to the next the multiple grows.
-/

namespace Quire

/-- In a total order, steps that do not go down compose: the whole goes up if one of them does. -/
theorem compare_then {α : Type} [Ord α] [Std.TransOrd α] {a b c : α}
    (first : (compare a b).isLE) (second : (compare b c).isLE) :
    compare a c = (compare a b).then (compare b c) := by
  cases up : compare a b with
  | lt => exact Std.TransCmp.lt_of_lt_of_isLE up second
  | eq => exact Std.TransCmp.congr_left up
  | gt => simp [up] at first

namespace Binary64

/-! ### Places and sizes -/

/-- How many of the smallest unit the number with a given pattern below the sign bit is. -/
def sizeInUnits (magnitude : Nat) : Nat :=
  (if magnitude < twoTo 52 then magnitude % twoTo 52 else twoTo 52 + magnitude % twoTo 52) *
    twoTo (max (magnitude / twoTo 52) 1 - 1)

/-- How many of the smallest unit a number is. -/
def inUnits (x : Binary64) : Int :=
  let size := x.coefficient * twoTo (x.unit + 1074).toNat
  if x.negative then -size else size

theorem inUnits_eq (x : Binary64) :
    x.inUnits =
      if x.negative then -(sizeInUnits x.magnitude : Int) else sizeInUnits x.magnitude := by
  have scale : (x.unit + 1074).toNat = max (x.magnitude / twoTo 52) 1 - 1 := by
    simp only [unit]
    omega
  simp only [inUnits, scale, coefficient, sizeInUnits, Int.natCast_mul]

/-- Below the first power of two that has a coefficient of full length, patterns count the units. -/
theorem sizeInUnits_subnormal {fraction : Nat} (below : fraction < twoTo 52) :
    sizeInUnits fraction = fraction := by
  have one : twoTo 0 = 1 := rfl
  simp [sizeInUnits, below, Nat.mod_eq_of_lt below, Nat.div_eq_of_lt below, one]

/-- From there on the unit doubles each time that the fraction has been through. -/
theorem sizeInUnits_normal (scale : Nat) {fraction : Nat} (below : fraction < twoTo 52) :
    sizeInUnits ((scale + 1) * twoTo 52 + fraction) = (twoTo 52 + fraction) * twoTo scale := by
  have width : 0 < twoTo 52 := by decide
  have quotient : ((scale + 1) * twoTo 52 + fraction) / twoTo 52 = scale + 1 := by
    rw [Nat.mul_comm, Nat.mul_add_div width, Nat.div_eq_of_lt below, Nat.add_zero]
  have rest : ((scale + 1) * twoTo 52 + fraction) % twoTo 52 = fraction :=
    Nat.mul_add_mod_of_lt below
  have above : ¬ (scale + 1) * twoTo 52 + fraction < twoTo 52 := by
    rw [Nat.succ_mul]
    omega
  simp [sizeInUnits, quotient, rest, above]

/-- The next pattern stands for a larger number. -/
theorem sizeInUnits_lt_succ (magnitude : Nat) :
    sizeInUnits magnitude < sizeInUnits (magnitude + 1) := by
  have width : 0 < twoTo 52 := by decide
  obtain ⟨quotient, fraction, below, rfl⟩ :
      ∃ quotient fraction, fraction < twoTo 52 ∧ magnitude = quotient * twoTo 52 + fraction :=
    ⟨magnitude / twoTo 52, magnitude % twoTo 52, Nat.mod_lt _ width, (Nat.div_add_mod' _ _).symm⟩
  rcases Nat.lt_or_eq_of_le (Nat.succ_le_of_lt below) with next | last
  · cases quotient with
    | zero =>
        rw [Nat.zero_mul, Nat.zero_add, sizeInUnits_subnormal below, sizeInUnits_subnormal next]
        exact Nat.lt_succ_self fraction
    | succ scale =>
        rw [Nat.add_assoc, sizeInUnits_normal scale below, sizeInUnits_normal scale next]
        exact Nat.mul_lt_mul_of_pos_right (by omega) (Nat.two_pow_pos scale)
  · -- the next pattern starts a new unit
    have carried : quotient * twoTo 52 + fraction + 1 = (quotient + 1) * twoTo 52 + 0 := by
      rw [Nat.succ_mul]
      omega
    rw [carried, sizeInUnits_normal quotient width, Nat.add_zero]
    cases quotient with
    | zero =>
        rw [Nat.zero_mul, Nat.zero_add, sizeInUnits_subnormal below]
        exact below
    | succ scale =>
        have double : twoTo (scale + 1) = 2 * twoTo scale := Nat.pow_succ'
        rw [sizeInUnits_normal scale below, double, ← Nat.mul_assoc]
        exact Nat.mul_lt_mul_of_pos_right (by omega) (Nat.two_pow_pos scale)

theorem sizeInUnits_strictMono : StrictMono sizeInUnits :=
  strictMono_nat_of_lt_succ sizeInUnits_lt_succ

/-- How many of the smallest unit the number at a given place on the number line is. -/
def unitsAt (place : Int) : Int :=
  place.sign * sizeInUnits place.natAbs

theorem unitsAt_neg (place : Int) : unitsAt (-place) = -unitsAt place := by
  simp only [unitsAt, Int.sign_neg, Int.natAbs_neg, Int.neg_mul]

theorem unitsAt_natCast (magnitude : Nat) : unitsAt magnitude = sizeInUnits magnitude := by
  cases magnitude with
  | zero => rfl
  | succ below =>
      rw [unitsAt, Int.natAbs_natCast, Int.sign_natCast_of_ne_zero (by omega), Int.one_mul]

theorem unitsAt_lt_unitsAt {place other : Int} (less : place < other) :
    unitsAt place < unitsAt other := by
  refine strictMono_of_odd_strictMonoOn_nonneg unitsAt_neg ?_ less
  intro place low other high less
  obtain ⟨m, rfl⟩ := Int.eq_ofNat_of_zero_le low
  obtain ⟨n, rfl⟩ := Int.eq_ofNat_of_zero_le high
  rw [unitsAt_natCast, unitsAt_natCast]
  exact Int.ofNat_lt.2 (sizeInUnits_strictMono (Int.ofNat_lt.1 less))

theorem inUnits_of_rank {x : Binary64} {place : Int} (placed : x.rank = some place) :
    x.inUnits = unitsAt place := by
  have number : x.isNaN = false := by
    by_contra nan
    simp [rank, nan] at placed
  rw [inUnits_eq]
  cases sign : x.negative with
  | false =>
      simp only [rank, number, sign, Bool.false_eq_true, if_false, Option.some.injEq] at placed
      rw [← placed, unitsAt_natCast, if_neg Bool.false_ne_true]
  | true =>
      simp only [rank, number, sign, Bool.false_eq_true, if_false, if_true,
        Option.some.injEq] at placed
      rw [← placed, unitsAt_neg, unitsAt_natCast, if_pos rfl]

/-- Numbers compare as what they stand for; the infinities stand for something that is larger than
all else in its direction. -/
theorem comparison_eq_compare {x y : Binary64} {left right : Int} (here : x.rank = some left)
    (there : y.rank = some right) : x.comparison y = some (compare x.inUnits y.inUnits) := by
  have ascending : StrictMono unitsAt := fun _ _ => unitsAt_lt_unitsAt
  rw [inUnits_of_rank here, inUnits_of_rank there, ← cmp_eq_compare, ascending.cmp_map_eq,
    cmp_eq_compare]
  simp [comparison, here, there]

end Binary64

namespace Value

/-! ### Places on the number line -/

/-- The place on the number line of the number that a value counts as. -/
def place (value : Value) : Option Int :=
  value.asNumber.bind Binary64.rank

/-- Places compare where there are two of them. -/
def placed (left right : Option Int) : Option Ordering :=
  left.bind fun x => right.map fun y => compare x y

/-- Values that are not both texts compare by their places. -/
theorem comparison_eq_placed {left right : Value}
    (mixed : left.kind = .string → right.kind ≠ .string) :
    left.comparison right = placed left.place right.place := by
  have numbers : (do (← left.asNumber).comparison (← right.asNumber)) =
      placed left.place right.place := by
    simp only [place]
    cases left.asNumber with
    | none => rfl
    | some x =>
        cases right.asNumber with
        | none => cases here : x.rank <;> simp [placed, here]
        | some y => cases here : x.rank <;> cases there : y.rank <;>
            simp [Binary64.comparison, placed, here, there]
  rw [← numbers]
  unfold comparison
  split
  · exact absurd rfl (mixed rfl)
  · rfl

/-- Two texts compare by their characters. -/
theorem comparison_texts (first second : String) :
    (string first).comparison (string second) = some (compare first second) := rfl

theorem exists_of_kind_string {value : Value} (isText : value.kind = .string) :
    ∃ text, value = .string text := by
  cases value with
  | string text => exact ⟨text, rfl⟩
  | _ => cases isText

/-! ### Turned around -/

theorem placed_swap (left right : Option Int) :
    placed right left = (placed left right).map Ordering.swap := by
  cases left <;> cases right <;> simp [placed, ← Std.OrientedOrd.eq_swap]

/-- Turned around, a comparison gives the opposite, or neither way gives one. -/
theorem comparison_swap (left right : Value) :
    right.comparison left = (left.comparison right).map Ordering.swap := by
  by_cases texts : left.kind = .string ∧ right.kind = .string
  · obtain ⟨first, rfl⟩ := exists_of_kind_string texts.1
    obtain ⟨second, rfl⟩ := exists_of_kind_string texts.2
    rw [comparison_texts, comparison_texts, Option.map_some, ← Std.OrientedOrd.eq_swap]
  · rw [comparison_eq_placed fun here there => texts ⟨there, here⟩,
      comparison_eq_placed fun here there => texts ⟨here, there⟩, placed_swap]

/-! ### One after another -/

theorem placed_then {a b c : Option Int} {first second : Ordering}
    (here : placed a b = some first) (there : placed b c = some second)
    (up : first.isLE) (further : second.isLE) : placed a c = some (first.then second) := by
  cases a with
  | none => cases here
  | some x =>
      cases b with
      | none => cases here
      | some y =>
          cases c with
          | none => cases there
          | some z =>
              cases here
              cases there
              exact congrArg some (compare_then up further)

/-- Of three kinds of which not exactly two are text, all are text or no two. -/
theorem apart_of_count {i j k : Kind} (mixed : [i, j, k].count .string ≠ 2)
    (others : ¬ (i = .string ∧ j = .string ∧ k = .string)) :
    (i = .string → j ≠ .string) ∧ (j = .string → k ≠ .string) ∧ (i = .string → k ≠ .string) := by
  by_cases first : i = .string <;> by_cases second : j = .string <;>
    by_cases third : k = .string <;> simp_all

/-- Of three values among which are not exactly two texts, comparisons that do not go down
compose. -/
theorem comparison_then {a b c : Value} (mixed : [a.kind, b.kind, c.kind].count .string ≠ 2)
    {first second : Ordering} (here : a.comparison b = some first)
    (there : b.comparison c = some second) (up : first.isLE) (further : second.isLE) :
    a.comparison c = some (first.then second) := by
  by_cases texts : a.kind = .string ∧ b.kind = .string ∧ c.kind = .string
  · obtain ⟨x, rfl⟩ := exists_of_kind_string texts.1
    obtain ⟨y, rfl⟩ := exists_of_kind_string texts.2.1
    obtain ⟨z, rfl⟩ := exists_of_kind_string texts.2.2
    cases here
    cases there
    exact congrArg some (compare_then up further)
  · obtain ⟨ab, bc, ac⟩ := apart_of_count mixed texts
    rw [comparison_eq_placed ab] at here
    rw [comparison_eq_placed bc] at there
    rw [comparison_eq_placed ac]
    exact placed_then here there up further

/-! ### Beside equality -/

theorem placed_self {place : Option Int} {order : Ordering}
    (defined : placed place place = some order) : order = .eq := by
  cases place with
  | none => cases defined
  | some x =>
      cases defined
      exact Std.compare_self

/-- Equal values that compare are equal in order. -/
theorem comparison_of_same {left right : Value} (equal : left.same right = true)
    {order : Ordering} (defined : left.comparison right = some order) : order = .eq := by
  cases left <;> cases right <;> simp only [same, Bool.false_eq_true] at equal
  case null.null => cases defined
  case array.array => cases defined
  case object.object => cases defined
  case bool.bool a b =>
    cases eq_of_beq equal
    have other : (bool a).kind = .string → (bool a).kind ≠ .string := nofun
    rw [comparison_eq_placed other] at defined
    exact placed_self defined
  case number.number x y =>
    have order : x.comparison y = some .eq := eq_of_beq equal
    exact Option.some.inj (defined.symm.trans order)
  case string.string a b =>
    cases eq_of_beq equal
    cases defined
    exact Std.compare_self

end Value

/-! ### Operators -/

namespace Operator

theorem holds_less_iff {left right : Value} :
    less.holds left right = true ↔ left.comparison right = some .lt := by
  simp [holds]

theorem holds_atMost_iff {left right : Value} :
    atMost.holds left right = true ↔ ∃ order, left.comparison right = some order ∧ order.isLE := by
  simp [holds, Option.any_eq_true]

/-- What a comparison says is what the comparison turned around says in the mirror. -/
theorem mirrored (order : Option Ordering) :
    (order == some .lt) = (order.map Ordering.swap == some .gt) ∧
      order.any Ordering.isLE = (order.map Ordering.swap).any Ordering.isGE ∧
      (order.any Ordering.isLE = true ∧ order.any Ordering.isGE = true ↔ order = some .eq) := by
  cases order with
  | none => decide
  | some order => cases order <;> decide

/-- Of three values among which are not exactly two texts, at most composes, and with less it gives
less. -/
theorem atMost_trans {a b c : Value} (mixed : [a.kind, b.kind, c.kind].count .string ≠ 2)
    (here : atMost.holds a b = true) (there : atMost.holds b c = true) :
    atMost.holds a c = true ∧
      (less.holds a b = true ∨ less.holds b c = true → less.holds a c = true) := by
  obtain ⟨first, here, up⟩ := holds_atMost_iff.1 here
  obtain ⟨second, there, further⟩ := holds_atMost_iff.1 there
  have whole := Value.comparison_then mixed here there up further
  rw [holds_less_iff, holds_less_iff, holds_less_iff, holds_atMost_iff, here, there, whole]
  revert up further
  cases first <;> cases second <;> decide

end Operator

/-- The operators that compare values are coherent. Turned around, a comparison gives the opposite
or neither way gives one, so that less turns into greater and at most into at least. What is both at
most and at least is equal in order. Unequal is what is not equal, and what is equal is equal in
order, if it compares. Of three values among which are not exactly two texts, comparisons that do
not go down compose: the whole does not go down either, and it goes up if one of them does. -/
theorem comparisons_coherent (a b c : Value) :
    b.comparison a = (a.comparison b).map Ordering.swap ∧
    Operator.less.holds a b = Operator.greater.holds b a ∧
    Operator.atMost.holds a b = Operator.atLeast.holds b a ∧
    ((Operator.atMost.holds a b = true ∧ Operator.atLeast.holds a b = true) ↔
      a.comparison b = some .eq) ∧
    Operator.unequal.holds a b = !Operator.equal.holds a b ∧
    (Operator.equal.holds a b = true → ∀ order, a.comparison b = some order → order = .eq) ∧
    ([a.kind, b.kind, c.kind].count .string ≠ 2 →
      (∀ first second, a.comparison b = some first → b.comparison c = some second →
        first.isLE → second.isLE → a.comparison c = some (first.then second)) ∧
      (Operator.atMost.holds a b = true → Operator.atMost.holds b c = true →
        Operator.atMost.holds a c = true ∧
        (Operator.less.holds a b = true ∨ Operator.less.holds b c = true →
          Operator.less.holds a c = true))) := by
  obtain ⟨less, atMost, both⟩ := Operator.mirrored (a.comparison b)
  rw [← Value.comparison_swap] at less atMost
  exact ⟨Value.comparison_swap a b, less, atMost, both, rfl,
    fun equal _ => Value.comparison_of_same equal, fun mixed =>
      ⟨fun _ _ => Value.comparison_then mixed, Operator.atMost_trans mixed⟩⟩

theorem true_below_two_below_ten :
    [(Value.bool true).kind, (Value.ofNat 2).kind, (Value.string " 10").kind].count .string ≠ 2 ∧
      (Value.bool true).comparison (.ofNat 2) = some .lt ∧
      (Value.ofNat 2).comparison (.string " 10") = some .lt ∧
      (Value.bool true).comparison (.string " 10") = some .lt ∧
      Operator.atMost.holds (.bool true) (.ofNat 2) = true ∧
      Operator.atMost.holds (.ofNat 2) (.string " 10") = true ∧
      Operator.less.holds (.bool true) (.string " 10") = true := by
  have first : (Value.bool true).comparison (.ofNat 2) = some .lt := by decide +kernel
  have second : (Value.ofNat 2).comparison (.string " 10") = some .lt := by decide +kernel
  have below : Operator.less.holds (.bool true) (.ofNat 2) = true := by decide +kernel
  have atMost : Operator.atMost.holds (.bool true) (.ofNat 2) = true := by decide +kernel
  have further : Operator.atMost.holds (.ofNat 2) (.string " 10") = true := by decide +kernel
  obtain ⟨_, _, _, _, _, _, composed⟩ :=
    comparisons_coherent (.bool true) (.ofNat 2) (.string " 10")
  obtain ⟨orders, operators⟩ := composed (by decide)
  exact ⟨by decide, first, second, orders _ _ first second rfl rfl, atMost, further,
    (operators atMost further).2 (.inl below)⟩

/-- With exactly two texts among the values it need not compose. -/
example : (Value.string "10").comparison (.string "9") = some .lt ∧
    (Value.string "9").comparison (.ofNat 9) = some .eq ∧
    (Value.string "10").comparison (.ofNat 9) = some .gt := by
  decide +kernel

end Quire
