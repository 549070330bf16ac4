/-
Module: Quire.Decimal
Purpose: Decimal numbers and their digits in positional form.
Main exports: Decimal, Decimal.positional, Decimal.leading
-/

namespace Quire

/-- The decimal number `digits · 10 ^ exponent`. -/
structure Decimal where
  digits : Nat
  exponent : Int
deriving DecidableEq, Repr

namespace Decimal

/-- The digits of a natural number, most significant first. -/
def digitsOf (n : Nat) : List Char :=
  Nat.toDigits 10 n

/-- The exponent of ten at the leading digit. -/
def leading (d : Decimal) : Int :=
  d.exponent + (digitsOf d.digits).length - 1

/-- The digits before and after the point. There is always a digit before it, and the digits after
it are those the number has. -/
def positional (d : Decimal) : List Char × List Char :=
  let digits := digitsOf d.digits
  let places := (-d.exponent).toNat
  if places = 0 then (digits ++ List.replicate d.exponent.toNat '0', [])
  else if places < digits.length then digits.splitAt (digits.length - places)
  else (['0'], List.replicate (places - digits.length) '0' ++ digits)

end Decimal

end Quire
