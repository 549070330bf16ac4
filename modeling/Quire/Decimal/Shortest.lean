/-
Module: Quire.Decimal.Shortest
Purpose: The shortest decimal that reads back as a given double precision number.
Main exports: Decimal.Tie, Decimal.shortest
-/
import Quire.Binary64
import Quire.Decimal
import Quire.Power

/-!
The reals that round to a number form an interval around it, which holds its ends exactly when the
coefficient is even. Among the grids of multiples of a power of ten, the coarsest that meets the
interval gives the fewest digits. If a grid meets the interval, one of the two grid points next to
the number lies in it, so only these two are tried.
-/

namespace Quire

namespace Decimal

/-- What becomes of a number that lies midway between two equally short decimals. -/
inductive Tie where
  | away
  | even
deriving DecidableEq, Repr

/-- The reals that round to a number, in quarters of its unit, and the size of such a quarter as a
fraction. -/
structure Neighbourhood where
  low : Nat
  centre : Nat
  high : Nat
  closed : Bool
  num : Nat
  den : Nat

/-- Below a power of two the numbers lie twice as close, except at the smallest unit. -/
def neighbourhood (x : Binary64) : Neighbourhood where
  low := if x.coefficient = twoTo 52 ∧ -1074 < x.unit then 4 * x.coefficient - 1
         else 4 * x.coefficient - 2
  centre := 4 * x.coefficient
  high := 4 * x.coefficient + 2
  closed := x.coefficient % 2 == 0
  num := twoTo (x.unit - 2).toNat
  den := twoTo (2 - x.unit).toNat

/-- The exponent of the largest power of ten that is no larger than a positive fraction. -/
def floorLog10 (num den : Nat) : Int :=
  if den ≤ num then (digitsOf (num / den)).length - 1
  else -((digitsOf ((den - 1) / num)).length : Int)

/-- The point of the grid `10 ^ exponent` that stands for the number, if the grid meets the reals
that round to it: of two such points the nearer. -/
def onGrid (tie : Tie) (n : Neighbourhood) (exponent : Int) : Option Nat :=
  let num := n.num * tenTo (-exponent).toNat
  let den := n.den * tenTo exponent.toNat
  let below := n.centre * num / den
  let inside := fun point : Nat =>
    if n.closed then n.low * num ≤ point * den ∧ point * den ≤ n.high * num
    else n.low * num < point * den ∧ point * den < n.high * num
  if inside below then
    if inside (below + 1) then
      match compare (2 * (n.centre * num)) ((2 * below + 1) * den), tie with
      | .lt, _ => some below
      | .gt, _ => some (below + 1)
      | .eq, .away => some (below + 1)
      | .eq, .even => some (below + below % 2)
    else some below
  else if inside (below + 1) then some (below + 1)
  else none

/-- The first grid that meets the interval, from a given one downwards. -/
def coarsest (tie : Tie) (n : Neighbourhood) : Nat → Int → Decimal
  | 0, exponent =>
      ⟨n.centre * n.num * tenTo (-exponent).toNat / (n.den * tenTo exponent.toNat), exponent⟩
  | grids + 1, exponent =>
      match onGrid tie n exponent with
      | some digits => ⟨digits, exponent⟩
      | none => coarsest tie n grids (exponent - 1)

/-- The decimal with the fewest digits among those that round to a finite number other than zero,
and of several such the nearest to it. Seventeen digits always suffice. A ten on the coarsest grid
is a one on the next. -/
def shortest (tie : Tie) (x : Binary64) : Decimal :=
  let n := neighbourhood x
  let found := coarsest tie n 17 (floorLog10 (n.centre * n.num) n.den)
  if found.digits % 10 = 0 then ⟨found.digits / 10, found.exponent + 1⟩ else found

end Decimal

end Quire
