/-
Module: Quire.Json.Number
Purpose: The numbers that JSON numerals denote, and the numerals of numbers.
Main exports: Numeral.toBinary64?, Numeral.toWord?, Numeral.ofBinary64, Numeral.ofNat
-/
import Quire.Json
import Quire.Power
import Quire.Decimal.Shortest
import Quire.Text.Search

/-!
A numeral is read into a 64-bit word as far as its digits fit, and the word is then scaled by a
power of ten in one multiplication or division. Digits of the whole part that do not fit are counted
in the power; digits of the fraction that do not fit are dropped.
-/

namespace Quire

namespace Numeral

/-! ### Reading -/

/-- As many digits as a 64-bit word takes after those in `word`, and the digits that are left. -/
def fill (word : Nat) : List Char → Nat × List Char
  | [] => (word, [])
  | digit :: rest =>
      let next := 10 * word + (digit.toNat - '0'.toNat)
      if next < twoTo 64 then fill next rest else (word, digit :: rest)

/-- The word and the power of ten that the digits of a numeral come to. -/
def significand (numeral : Numeral) : Nat × Int :=
  let (word, left) := fill 0 numeral.whole
  let fraction := numeral.fraction.getD []
  let (word, dropped) := fill word fraction
  (word, (left.length : Int) - (fraction.length - dropped.length : Nat))

/-- The exponent that a numeral states. -/
def statedExponent (numeral : Numeral) : Int :=
  match numeral.exponent with
  | none => 0
  | some (negative, digits) =>
      let size : Int := Text.digitsValue digits
      if negative then -size else size

/-- The largest power of ten that is a number. -/
def maxPower : Nat := 308

/-- The number nearest to a power of ten. -/
def power (exponent : Nat) : Binary64 :=
  .ofNat (tenTo exponent)

/-- A number divided by a power of ten, in several divisions if the power is too large. -/
def shrink (x : Binary64) (exponent : Nat) : Binary64 :=
  if exponent ≤ maxPower then x.dividedBy (power exponent)
  else if x.isZero then x
  else shrink (x.dividedBy (power maxPower)) (exponent - maxPower)
termination_by exponent
decreasing_by simp only [maxPower] at *; omega

/-- A number that is not negative times a power of ten, unless that is too large for a number. -/
def scale? (x : Binary64) (exponent : Int) : Option Binary64 :=
  if exponent < 0 then some (shrink x exponent.natAbs)
  else if exponent ≤ maxPower then
    let product := x.times (power exponent.toNat)
    if product.isFinite then some product else none
  else if x.isZero then some x
  else none

/-- The number that a numeral denotes, unless it is too large for a number. -/
def toBinary64? (numeral : Numeral) : Option Binary64 := do
  let (word, exponent) := numeral.significand
  let size ← scale? (.ofNat word) (exponent + numeral.statedExponent)
  return if numeral.negative then size.opposite else size

/-- The natural number that a numeral denotes, if it is written in digits alone and fits in a 64-bit
word. -/
def toWord? (numeral : Numeral) : Option Nat :=
  let size := Text.digitsValue numeral.whole
  match numeral with
  | ⟨false, _, none, none⟩ => if size < twoTo 64 then some size else none
  | _ => none

/-! ### Writing -/

/-- The numeral of a natural number. -/
def ofNat (n : Nat) : Numeral :=
  ⟨false, Decimal.digitsOf n, none, none⟩

/-- Whether a decimal whose leading digit stands at the given power of ten is written with an
exponent. -/
def needsExponent (leading : Int) : Bool :=
  leading < -5 || 15 < leading

/-- The numeral of a decimal. A whole number has a zero after its point, and of a number with an
exponent one digit stands before the point, if there is one. -/
def ofDecimal (negative : Bool) (d : Decimal) : Numeral :=
  if needsExponent d.leading then
    let exponent := some (decide (d.leading < 0), Decimal.digitsOf d.leading.natAbs)
    match Decimal.digitsOf d.digits with
    | first :: second :: rest => ⟨negative, [first], some (second :: rest), exponent⟩
    | digits => ⟨negative, digits, none, exponent⟩
  else
    let (whole, fraction) := d.positional
    ⟨negative, whole, some (if fraction = [] then ['0'] else fraction), none⟩

/-- The numeral of a finite number: the fewest digits that round to it, the nearest of them, and of
two equally near the even ones. -/
def ofBinary64 (x : Binary64) : Numeral :=
  if x.isZero then ⟨x.negative, ['0'], some ['0'], none⟩
  else ofDecimal x.negative (Decimal.shortest .even x)

example : (ofBinary64 ⟨0x4014000000000000⟩).render = "5.0" := by decide +kernel
example : (ofBinary64 ⟨0x3EE4F8B588E368F1⟩).render = "0.00001" := by decide +kernel
example : (ofBinary64 ⟨0x44B52D02C7E14AF6⟩).render = "1e23" := by decide +kernel

end Numeral

end Quire
