/-
Module: Quire.Binary64
Purpose: IEEE 754 double precision numbers, kept as their 64 bits.
Main exports: Binary64, coefficient, unit, rank, comparison, nearest, ofInt, times, dividedBy
-/
import Quire.Power

/-!
A number is its bit pattern, so that order, rounding and text are arithmetic on natural numbers.
Below the sign bit the patterns ascend with the magnitude they stand for: zero, the subnormal and
normal numbers, infinity, and last those that are not a number.
-/

namespace Quire

/-- A double precision number. -/
structure Binary64 where
  bits : UInt64
deriving DecidableEq, Repr, Inhabited

namespace Binary64

/-- The pattern of positive infinity. -/
def infinityPattern : Nat := 0x7FF * twoTo 52

/-- Whether the sign bit is set. -/
def negative (x : Binary64) : Bool :=
  twoTo 63 ≤ x.bits.toNat

/-- The pattern without its sign bit. -/
def magnitude (x : Binary64) : Nat :=
  x.bits.toNat % twoTo 63

/-- Whether a pattern is not a number. -/
def isNaN (x : Binary64) : Bool :=
  infinityPattern < x.magnitude

/-- Whether a pattern is a number other than the infinities. -/
def isFinite (x : Binary64) : Bool :=
  x.magnitude < infinityPattern

/-- Whether a number is one of the two zeros. -/
def isZero (x : Binary64) : Bool :=
  x.magnitude == 0

/-- The number with a given sign and a given pattern below the sign bit. -/
def ofMagnitude (negative : Bool) (magnitude : Nat) : Binary64 :=
  ⟨UInt64.ofNat (if negative then twoTo 63 + magnitude else magnitude)⟩

/-- A finite number is its coefficient times two to the power of its unit. -/
def coefficient (x : Binary64) : Nat :=
  let fraction := x.magnitude % twoTo 52
  if x.magnitude < twoTo 52 then fraction else twoTo 52 + fraction

/-- The exponent of two by which the coefficient of a finite number is scaled. -/
def unit (x : Binary64) : Int :=
  max (x.magnitude / twoTo 52 : Nat) 1 - 1075

/-! ### Order -/

/-- The place of a number on the number line. The two zeros share one place, and what is not a
number has none. -/
def rank (x : Binary64) : Option Int :=
  if x.isNaN then none
  else if x.negative then some (-(x.magnitude : Int))
  else some x.magnitude

/-- How one number compares with another; nothing compares with what is not a number. -/
def comparison (x y : Binary64) : Option Ordering := do
  let left ← x.rank
  let right ← y.rank
  return compare left right

/-- Numeric equality: the zeros are equal, and what is not a number equals nothing. -/
def same (x y : Binary64) : Bool :=
  x.comparison y == some .eq

/-! ### Rounding -/

/-- A quotient to the nearest integer, a half going to the even neighbour. -/
def roundQuotient (num den : Nat) : Nat :=
  let quotient := num / den
  let rest := num % den
  if 2 * rest < den then quotient
  else if den < 2 * rest then quotient + 1
  else quotient + quotient % 2

/-- The exponent of the largest power of two that is no larger than a positive fraction. -/
def floorLog2 (num den : Nat) : Int :=
  let guess : Int := (num.log2 : Int) - den.log2
  if num * twoTo (-guess).toNat < den * twoTo guess.toNat then guess - 1 else guess

/-- The pattern of the number nearest to a non-negative fraction. Coefficients have 53 bits where
the unit allows it. A carry out of the coefficient moves on to the next unit, and past the largest
finite number to infinity. -/
def nearestPattern (num den : Nat) : Nat :=
  if num = 0 then 0
  else
    let unit := max (floorLog2 num den - 52) (-1074)
    let coefficient := roundQuotient (num * twoTo (-unit).toNat) (den * twoTo unit.toNat)
    min ((unit + 1074).toNat * twoTo 52 + coefficient) infinityPattern

/-- The number nearest to a signed fraction, an exact half going to the even coefficient. -/
def nearest (negative : Bool) (num den : Nat) : Binary64 :=
  ofMagnitude negative (nearestPattern num den)

/-- The number nearest to an integer. -/
def ofInt (n : Int) : Binary64 :=
  nearest (n < 0) n.natAbs 1

/-- The number nearest to a natural number. -/
def ofNat (n : Nat) : Binary64 :=
  nearest false n 1

/-- The number nearest to a decimal `digits · 10 ^ exponent`. Exponents that are far out of range
are settled before any power is taken: the answer is then zero or infinity whatever the digits. -/
def ofDecimal (negative : Bool) (digits : Nat) (exponent : Int) : Binary64 :=
  if digits = 0 then ofMagnitude negative 0
  else if 400 < exponent then ofMagnitude negative infinityPattern
  else if exponent < -400 - digits.log2 then ofMagnitude negative 0
  else nearest negative (digits * tenTo exponent.toNat) (tenTo (-exponent).toNat)

/-- The product of two finite numbers, rounded once. -/
def times (x y : Binary64) : Binary64 :=
  let unit := x.unit + y.unit
  nearest (x.negative != y.negative)
    (x.coefficient * y.coefficient * twoTo unit.toNat) (twoTo (-unit).toNat)

/-- The quotient of two finite numbers, rounded once. The divisor is not zero. -/
def dividedBy (x y : Binary64) : Binary64 :=
  let unit := x.unit - y.unit
  nearest (x.negative != y.negative)
    (x.coefficient * twoTo unit.toNat) (y.coefficient * twoTo (-unit).toNat)

/-- The number with the opposite sign. -/
def opposite (x : Binary64) : Binary64 :=
  ofMagnitude (!x.negative) x.magnitude

end Binary64

end Quire
