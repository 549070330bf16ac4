/-
Module: Quire.Proofs.Numerals
Purpose: The numerals of numbers have the form of numerals and denote the numbers, and reading a
  numeral gives no infinity.
Main exports: Numeral.proper_ofNat, Numeral.toWord?_ofNat, Numeral.proper_ofBinary64,
  Numeral.nearest?, Numeral.nearest?_ofBinary64, Numeral.isFinite_of_toBinary64?
-/
import Mathlib.Data.List.Basic
import Quire.Json.Number
import Quire.Proofs.JsonText
import Quire.Proofs.ShortestDecimals

/-!
A number is written as its shortest decimal, with the point or the exponent put so that the numeral
denotes that decimal. Reading by one rounding of what a numeral denotes therefore gives back every
finite number. The reader scales a word by a power of ten instead and may miss the nearest number by
a little; like rounding it gives finite numbers only, since a division by a power of ten makes
nothing larger.
-/

namespace Quire

namespace Numeral

open Json (Digits)

/-! ### Numerals of natural numbers -/

theorem digits_digitsOf (n : Nat) : Digits (Decimal.digitsOf n) :=
  ⟨Decimal.digitsOf_ne_nil n, Decimal.isDigit_of_mem_digitsOf⟩

theorem length_digitsOf_of_zero {n : Nat} (zero : (Decimal.digitsOf n).head? = some '0') :
    (Decimal.digitsOf n).length ≤ 1 := by
  by_cases none : n = 0
  · subst none
    exact Nat.le_refl 1
  · exact absurd zero (Decimal.head?_digitsOf none)

theorem proper_ofNat (n : Nat) : (ofNat n).Proper where
  whole := digits_digitsOf n
  first := length_digitsOf_of_zero
  fraction := nofun
  exponent := nofun

/-- A word is read back from its digits. -/
theorem toWord?_ofNat {n : Nat} (word : n < twoTo 64) : (ofNat n).toWord? = some n := by
  simp [ofNat, toWord?, word]

/-! ### Numerals of decimals -/

/-- The decimal that a numeral denotes, apart from its sign. -/
def decimal (numeral : Numeral) : Decimal where
  digits := Text.digitsValue (numeral.whole ++ numeral.fraction.getD [])
  exponent := numeral.statedExponent - (numeral.fraction.getD []).length

theorem digits_zero : Digits ['0'] := by
  refine ⟨List.cons_ne_nil _ _, fun c member => ?_⟩
  rw [List.mem_singleton.1 member]
  rfl

theorem digits_append {cs rest : List Char} (digits : Digits cs)
    (others : ∀ c ∈ rest, c.isDigit = true) : Digits (cs ++ rest) := by
  constructor
  · simp [digits.some]
  · intro c member
    rcases List.mem_append.1 member with front | back
    · exact digits.digit c front
    · exact others c back

/-- The digits of a decimal before the point, those after it, and how they make up the decimal. -/
inductive Placed (d : Decimal) : List Char × List Char → Prop where
  /-- The point is behind all digits, with zeros in between. -/
  | whole (nonneg : 0 ≤ d.exponent) :
      Placed d (Decimal.digitsOf d.digits ++ List.replicate d.exponent.toNat '0', [])
  /-- The point is among the digits. -/
  | among {front back : List Char} (split : front ++ back = Decimal.digitsOf d.digits)
      (some : front ≠ []) (some' : back ≠ []) (places : d.exponent = -(back.length : Int)) :
      Placed d (front, back)
  /-- The point is in front of all digits, with zeros in between. -/
  | small {zeros : Nat}
      (places : d.exponent = -((zeros + (Decimal.digitsOf d.digits).length : Nat) : Int)) :
      Placed d (['0'], List.replicate zeros '0' ++ Decimal.digitsOf d.digits)

theorem placed_positional (d : Decimal) : Placed d d.positional := by
  unfold Decimal.positional
  simp only
  split
  · exact .whole (by omega)
  · split
    · rename_i some among
      rw [List.splitAt_eq]
      apply Placed.among (List.take_append_drop _ _)
      · simp [Decimal.digitsOf_ne_nil]
        omega
      · simp
        omega
      · simp
        omega
    · exact .small (by omega)

/-- The numeral of a decimal that is not zero has the form of a numeral. -/
theorem proper_ofDecimal (negative : Bool) {d : Decimal} (some : d.digits ≠ 0) :
    (ofDecimal negative d).Proper := by
  have digits := digits_digitsOf d.digits
  have first := Decimal.head?_digitsOf some
  unfold ofDecimal
  simp only
  split
  · have exponent : ∀ stated ∈ Option.some (decide (d.leading < 0),
        Decimal.digitsOf d.leading.natAbs), Digits stated.2 := by
      rintro _ ⟨⟩
      exact digits_digitsOf _
    split
    · rename_i c next rest spelled
      rw [spelled] at digits
      refine ⟨⟨List.cons_ne_nil c [], ?_⟩, fun _ => Nat.le_refl 1, ?_, exponent⟩
      · intro other member
        rw [List.mem_singleton.1 member]
        exact digits.digit c List.mem_cons_self
      · rintro _ ⟨⟩
        exact ⟨List.cons_ne_nil next rest, fun other member =>
          digits.digit other (List.mem_cons_of_mem c member)⟩
    · exact ⟨digits, fun zero => absurd zero first, nofun, exponent⟩
  · have placed := placed_positional d
    generalize d.positional = written at placed
    cases placed with
    | whole nonneg =>
        refine ⟨digits_append digits ?_, fun zero => ?_, ?_, nofun⟩
        · intro c member
          rw [(List.mem_replicate.1 member).2]
          rfl
        · rw [List.head?_append_of_ne_nil _ digits.some] at zero
          exact absurd zero first
        · rintro _ ⟨⟩
          exact digits_zero
    | @among front back split some some' places =>
        rw [← split] at digits first
        refine ⟨⟨some, ?_⟩, fun zero => ?_, ?_, nofun⟩
        · exact fun c member => digits.digit c (List.mem_append_left back member)
        · rw [List.head?_append_of_ne_nil _ some] at first
          exact absurd zero first
        · rintro _ ⟨⟩
          rw [if_neg some']
          exact ⟨some', fun c member => digits.digit c (List.mem_append_right front member)⟩
    | @small zeros places =>
        refine ⟨digits_zero, fun _ => Nat.le_refl 1, ?_, nofun⟩
        rintro _ ⟨⟩
        rw [if_neg (List.append_ne_nil_of_right_ne_nil _ digits.some)]
        refine ⟨List.append_ne_nil_of_right_ne_nil _ digits.some, fun c member => ?_⟩
        rcases List.mem_append.1 member with zero | digit
        · rw [(List.mem_replicate.1 zero).2]
          rfl
        · exact digits.digit c digit

/-- The numeral of a decimal denotes a decimal that is rounded as the decimal is. -/
theorem ofDecimal_decimal (negative sign : Bool) (d : Decimal) :
    Binary64.ofDecimal sign (ofDecimal negative d).decimal.digits
        (ofDecimal negative d).decimal.exponent =
      Binary64.ofDecimal sign d.digits d.exponent := by
  unfold ofDecimal
  simp only
  split
  · have stated : ∀ {whole fraction}, (Numeral.mk negative whole fraction
        (some (decide (d.leading < 0), Decimal.digitsOf d.leading.natAbs))).statedExponent =
          d.leading := by
      intro whole fraction
      simp only [statedExponent, Text.digitsValue_digitsOf, decide_eq_true_eq]
      split <;> omega
    have value := Text.digitsValue_digitsOf d.digits
    split
    · rename_i c next rest spelled
      have exponent : d.leading - ((next :: rest).length : Nat) = d.exponent := by
        rw [Decimal.leading, spelled, List.length_cons]
        omega
      rw [spelled] at value
      simp only [decimal, stated, Option.getD_some, List.singleton_append, value, exponent]
    · rename_i single
      have exponent : d.leading - ((([] : List Char).length : Nat) : Int) = d.exponent := by
        rw [Decimal.leading]
        cases spelled : Decimal.digitsOf d.digits with
        | nil => exact absurd spelled (Decimal.digitsOf_ne_nil _)
        | cons c rest =>
            cases rest with
            | nil => simp
            | cons next rest => exact (single c next rest spelled).elim
      simp only [decimal, stated, Option.getD_none, List.append_nil, value, exponent]
  · have placed := placed_positional d
    generalize d.positional = written at placed
    cases placed with
    | whole nonneg =>
        -- the zero behind the point is taken back by the exponent
        have zeros : List.replicate d.exponent.toNat '0' ++ ['0'] =
            List.replicate (d.exponent.toNat + 1) '0' := List.replicate_succ'.symm
        have value : Text.digitsValue (Decimal.digitsOf d.digits ++
            List.replicate d.exponent.toNat '0' ++ ['0']) =
              d.digits * tenTo (d.exponent.toNat + 1) := by
          rw [List.append_assoc, zeros, Text.digitsValue_append, Text.digitsValue_zeros,
            Text.digitsValue_digitsOf, List.length_replicate, Nat.add_zero]
        have exponent : (0 : Int) - ((['0'].length : Nat) : Int) + (d.exponent.toNat + 1 : Nat) =
            d.exponent := by
          rw [List.length_singleton]
          omega
        simp only [decimal, statedExponent, if_true, Option.getD_some, value,
          Binary64.ofDecimal_mul_tenTo, exponent]
    | @among front back split some some' places =>
        have value := Text.digitsValue_digitsOf d.digits
        rw [← split] at value
        simp [decimal, statedExponent, some', value, places]
    | @small zeros places =>
        have value : Text.digitsValue (['0'] ++ (List.replicate zeros '0' ++
            Decimal.digitsOf d.digits)) = d.digits := by
          have front : ['0'] ++ List.replicate zeros '0' = List.replicate (zeros + 1) '0' := rfl
          rw [← List.append_assoc, front, Text.digitsValue_append, Text.digitsValue_zeros,
            Text.digitsValue_digitsOf, Nat.zero_mul, Nat.zero_add]
        have some : List.replicate zeros '0' ++ Decimal.digitsOf d.digits ≠ [] :=
          List.append_ne_nil_of_right_ne_nil _ (Decimal.digitsOf_ne_nil _)
        simp only [decimal, statedExponent, if_neg some, Option.getD_some, value,
          List.length_append, List.length_replicate, Int.zero_sub, ← places]

/-! ### Numerals of numbers -/

/-- The numeral of a finite number has the form of a numeral. -/
theorem proper_ofBinary64 {x : Binary64} (finite : x.isFinite = true) : (ofBinary64 x).Proper := by
  unfold ofBinary64
  split
  · refine ⟨digits_zero, fun _ => Nat.le_refl 1, ?_, nofun⟩
    rintro _ ⟨⟩
    exact digits_zero
  · rename_i nonzero
    exact proper_ofDecimal x.negative
      (Decimal.shortest_digits_ne_zero .even (by simpa using nonzero) finite)

theorem negative_ofDecimal (negative : Bool) (d : Decimal) :
    (ofDecimal negative d).negative = negative := by
  unfold ofDecimal
  simp only
  split
  · split <;> rfl
  · rfl

/-- The number that is nearest to what a numeral denotes, unless that is an infinity. -/
def nearest? (numeral : Numeral) : Option Binary64 :=
  let x := Binary64.ofDecimal numeral.negative numeral.decimal.digits numeral.decimal.exponent
  if x.isFinite then some x else none

/-- Rounding what the numeral of a number denotes gives the number. -/
theorem nearest?_ofBinary64 {x : Binary64} (finite : x.isFinite = true) :
    nearest? (ofBinary64 x) = some x := by
  have same : Binary64.ofDecimal (ofBinary64 x).negative (ofBinary64 x).decimal.digits
      (ofBinary64 x).decimal.exponent = x := by
    unfold ofBinary64
    split
    · rename_i zero
      have none : x.magnitude = 0 := by simpa [Binary64.isZero] using zero
      have read : Binary64.ofMagnitude x.negative x.magnitude = x :=
        Binary64.ofMagnitude_magnitude x
      rw [none] at read
      exact read
    · rename_i nonzero
      rw [negative_ofDecimal, ofDecimal_decimal]
      exact Decimal.ofDecimal_shortest .even (by simpa using nonzero) finite
  simp only [nearest?, same, finite, if_true]

end Numeral

/-! ### What is read is finite -/

namespace Binary64

/-- There are as many of the smallest unit in a number that is at least one as there are in one. -/
theorem twoTo_le_sizeInUnits {n : Nat} (pos : n ≠ 0) :
    twoTo 1074 ≤ sizeInUnits (ofNat n).magnitude := by
  have one : nearestPattern 1 1 = (1022 + 1) * twoTo 52 + 0 := by decide +kernel
  have unit : sizeInUnits (nearestPattern 1 1) = twoTo 1074 := by
    have width : twoTo 52 * twoTo 1022 = twoTo 1074 := (twoTo_add 52 1022).symm
    rw [one, sizeInUnits_normal 1022 (twoTo_pos 52), Nat.add_zero, width]
  have small : nearestPattern n 1 < twoTo 63 :=
    Nat.lt_of_le_of_lt (nearestPattern_le n 1) infinityPattern_lt
  have more : nearestPattern 1 1 ≤ nearestPattern n 1 :=
    nearestPattern_mono (by decide) (by decide) (by omega)
  rw [← unit, ofNat, nearest, magnitude_ofMagnitude small]
  exact sizeInUnits_strictMono.monotone more

/-- A number divided by one that is at least one is finite. -/
theorem isFinite_dividedBy {x y : Binary64} (finite : x.isFinite = true)
    (large : twoTo 1074 ≤ sizeInUnits y.magnitude) : (x.dividedBy y).isFinite = true := by
  have below := isFinite_iff.1 finite
  rw [sizeInUnits_magnitude] at large
  have some : 0 < y.coefficient :=
    Nat.pos_of_mul_pos_right (Nat.lt_of_lt_of_le (twoTo_pos 1074) large)
  have den : y.coefficient * twoTo (-(x.unit - y.unit)).toNat ≠ 0 :=
    Nat.mul_ne_zero (Nat.ne_of_gt some) (Nat.ne_of_gt (twoTo_pos _))
  have places : (x.unit - y.unit).toNat + y.scale = x.scale + (-(x.unit - y.unit)).toNat := by
    have left := x.unit_eq
    have right := y.unit_eq
    omega
  rw [dividedBy, isFinite_nearest, decide_eq_true_eq]
  apply Nat.lt_of_le_of_lt _ below
  apply Nat.le_of_not_lt
  rw [lt_nearestPattern_iff den below]
  apply not_passes_of_le den
  calc
    x.coefficient * twoTo (x.unit - y.unit).toNat * twoTo 1074 ≤
        x.coefficient * twoTo (x.unit - y.unit).toNat * (y.coefficient * twoTo y.scale) :=
      Nat.mul_le_mul_left _ large
    _ = x.coefficient * y.coefficient * twoTo ((x.unit - y.unit).toNat + y.scale) := by
      rw [twoTo_add]
      ring
    _ = sizeInUnits x.magnitude * (y.coefficient * twoTo (-(x.unit - y.unit)).toNat) := by
      rw [places, twoTo_add, sizeInUnits_magnitude]
      ring

theorem isFinite_ofNat {n : Nat} (word : n < twoTo 64) : (ofNat n).isFinite = true := by
  have most : nearestPattern n 1 ≤ nearestPattern (twoTo 64) 1 :=
    nearestPattern_mono (by decide) (by decide) (by omega)
  have below : nearestPattern (twoTo 64) 1 < infinityPattern := by decide +kernel
  rw [ofNat, isFinite_nearest, decide_eq_true_eq]
  exact Nat.lt_of_le_of_lt most below

theorem isFinite_opposite {x : Binary64} (finite : x.isFinite = true) :
    x.opposite.isFinite = true := by
  have below := isFinite_iff.1 finite
  rw [opposite, isFinite_ofMagnitude (Nat.le_of_lt below), decide_eq_true below]

end Binary64

namespace Numeral

theorem fill_lt {word : Nat} (fits : word < twoTo 64) (digits : List Char) :
    (fill word digits).1 < twoTo 64 := by
  induction digits generalizing word with
  | nil => exact fits
  | cons digit rest ih =>
      simp only [fill]
      split
      · rename_i next
        exact ih next
      · exact fits

theorem isFinite_shrink {x : Binary64} (finite : x.isFinite = true) (exponent : Nat) :
    (shrink x exponent).isFinite = true := by
  have large : ∀ exponent, twoTo 1074 ≤ Binary64.sizeInUnits (power exponent).magnitude :=
    fun exponent => Binary64.twoTo_le_sizeInUnits (Nat.ne_of_gt (tenTo_pos exponent))
  fun_induction shrink x exponent with
  | case1 x exponent small => exact Binary64.isFinite_dividedBy finite (large exponent)
  | case2 x exponent _ zero => exact finite
  | case3 x exponent _ _ ih => exact ih (Binary64.isFinite_dividedBy finite (large maxPower))

theorem isFinite_of_scale? {x y : Binary64} (finite : x.isFinite = true) {exponent : Int}
    (scaled : scale? x exponent = some y) : y.isFinite = true := by
  simp only [scale?] at scaled
  split at scaled
  · cases scaled
    exact isFinite_shrink finite _
  · split at scaled
    · split at scaled
      · rename_i product
        cases scaled
        exact product
      · cases scaled
    · split at scaled
      · cases scaled
        exact finite
      · cases scaled

/-- The reader gives finite numbers only. -/
theorem isFinite_of_toBinary64? {numeral : Numeral} {x : Binary64}
    (read : numeral.toBinary64? = some x) : x.isFinite = true := by
  simp only [toBinary64?, Option.bind_eq_bind, Option.bind_eq_some_iff] at read
  obtain ⟨size, scaled, signed⟩ := read
  have word : numeral.significand.1 < twoTo 64 := fill_lt (fill_lt (by decide) _) _
  have finite := isFinite_of_scale? (Binary64.isFinite_ofNat word) scaled
  cases signed
  split
  · exact Binary64.isFinite_opposite finite
  · exact finite

end Numeral

end Quire
