/-
Module: Quire.Power
Purpose: The powers of the two bases in which numbers are written.
Main exports: twoTo, tenTo
-/

namespace Quire

/-- Two to a power. -/
def twoTo (exponent : Nat) : Nat :=
  Nat.pow 2 exponent

/-- Ten to a power. -/
def tenTo (exponent : Nat) : Nat :=
  Nat.pow 10 exponent

end Quire
