/-
Module: Quire.Decimal.Literal
Purpose: Reading a number written in decimal.
Main exports: Decimal.Literal, Decimal.literal?
-/
import Quire.Binary64
import Quire.Text.Search

/-!
A literal is an optional sign, digits with at most one point among or beside them, and an optional
exponent. At least one digit stands before the exponent. A literal denotes the double precision
number nearest to it; one that is nearest to infinity denotes none.
-/

namespace Quire

namespace Decimal

/-- The sign in front of a literal and the characters after it. -/
def signed : List Char → Bool × List Char
  | '-' :: rest => (true, rest)
  | '+' :: rest => (false, rest)
  | cs => (false, cs)

/-- The digits at the front and the characters after them. -/
def digitRun (cs : List Char) : List Char × List Char :=
  (cs.takeWhile Char.isDigit, cs.dropWhile Char.isDigit)

/-- The digits after the point, if there is one, and the characters after them. -/
def fractionRun : List Char → List Char × List Char
  | '.' :: rest => digitRun rest
  | cs => ([], cs)

/-- The exponent that a literal ends with: none at all means zero. -/
def exponent? : List Char → Option Int
  | [] => some 0
  | mark :: rest =>
      let (negative, digits) := signed rest
      if (mark = 'e' ∨ mark = 'E') ∧ digits ≠ [] ∧ digits.all Char.isDigit then
        let size : Int := Text.digitsValue digits
        some (if negative then -size else size)
      else none

/-- The finite number that a text denotes as a decimal literal. -/
def literal? (text : List Char) : Option Binary64 := do
  let (negative, unsigned) := signed text
  let (whole, afterWhole) := digitRun unsigned
  let (fraction, afterFraction) := fractionRun afterWhole
  let exponent ← exponent? afterFraction
  let digits := whole ++ fraction
  if digits = [] then none
  else
    let number :=
      Binary64.ofDecimal negative (Text.digitsValue digits) (exponent - fraction.length)
    if number.isFinite then some number else none

example : literal? "+.5e1".toList = some (.ofNat 5) := by decide +kernel
example : literal? "7.".toList = some (.ofNat 7) := by decide +kernel
example : literal? "1e400".toList = none := by decide +kernel
example : literal? ".".toList = none := by decide +kernel

end Decimal

end Quire
