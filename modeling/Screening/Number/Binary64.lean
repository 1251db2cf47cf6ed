import Screening.Number.Decimal

/-!
# Finite binary64 numbers

The finite numbers of the IEEE 754 format with 53 bits of precision, in exact arithmetic.
Each is a whole number of units of `2 ^ (-1074)`. Reading a ratio or a decimal rounds to the
nearest number, a tie going to the even significand, and fails where that is infinite. So do
multiplication and division.
-/

namespace Screening.Number

/-- The number `± significand · 2 ^ (exponent - 1074)`. Of the ways to write a number so, the
one with the smallest exponent is taken, which makes the fields unique. -/
structure Binary64 where
  negative : Bool
  significand : Nat
  exponent : Nat
  /-- There are 53 bits. -/
  significand_lt : significand < 0x20000000000000
  exponent_le : exponent ≤ 2045
  /-- The first of the bits is set unless the exponent is the smallest there is. -/
  normal : exponent = 0 ∨ 0x10000000000000 ≤ significand
  deriving DecidableEq

/-- `num / den` as a whole number, nearest first and a tie to the even one. -/
def roundHalfEven (num den : Nat) : Nat :=
  let q := num / den
  let r := num % den
  if 2 * r < den then q else if den < 2 * r then q + 1 else q + q % 2

namespace Binary64

/-! ## Value -/

/-- The size of the number, counted in units of `2 ^ (-1074)`. -/
def units (x : Binary64) : Nat := x.significand * Nat.pow 2 x.exponent

/-- The units that make one. -/
def one : Nat := Nat.pow 2 1074

/-- Zero with the given sign. -/
def zero (negative : Bool) : Binary64 :=
  ⟨negative, 0, 0, by decide, by decide, .inl rfl⟩

/-- Whether two numbers have the same value; the two zeros do. -/
def same (x y : Binary64) : Bool :=
  x == y || (x.significand == 0 && y.significand == 0)

/-- The value, if it is whole. -/
def toInt? (x : Binary64) : Option Int :=
  if x.units % one = 0 then some (signed x.negative (x.units / one)) else none

/-- What `2 ^ (-1074)` counts in units of `10 ^ (-1074)`. -/
def decimalUnits : Nat := Nat.pow 5 1074

/-- The value as a decimal. -/
def toDecimal (x : Binary64) : Decimal :=
  { negative := x.negative, digits := x.units * decimalUnits, exponent := -1074 }

/-! ## Rounding -/

/-- The number with this significand and exponent. A significand of `2 ^ 53` is halved, and
an exponent that is too large has no number. -/
def pack? (negative : Bool) (significand exponent : Nat) : Option Binary64 :=
  if h : significand < 0x20000000000000 ∧ exponent ≤ 2045 ∧
      (exponent = 0 ∨ 0x10000000000000 ≤ significand) then
    some ⟨negative, significand, exponent, h.1, h.2.1, h.2.2⟩
  else if h : significand = 0x20000000000000 ∧ exponent + 1 ≤ 2045 then
    some ⟨negative, 0x10000000000000, exponent + 1, by decide, h.2, .inr (Nat.le_refl _)⟩
  else none

/-- The number nearest to `± num / den` units. The exponent leaves 53 bits before the point. -/
def ofUnits? (negative : Bool) (num den : Nat) : Option Binary64 :=
  let exponent := (num / den).log2 - 52
  pack? negative (roundHalfEven num (den * Nat.pow 2 exponent)) exponent

/-- The number nearest to an integer. -/
def ofInt? (v : Int) : Option Binary64 := ofUnits? (v < 0) (v.natAbs * one) 1

/-- The number nearest to a decimal. A decimal of `10 ^ 309` or more is infinite and one below
`10 ^ (-324)` is zero, whatever its digits, so no power beyond these is ever computed. -/
def ofDecimal? (d : Decimal) : Option Binary64 :=
  let top : Int := digitCount d.digits + d.exponent
  if d.digits = 0 then some (zero d.negative)
  else if 309 < top then none
  else if top ≤ -324 then some (zero d.negative)
  else if 0 ≤ d.exponent then ofUnits? d.negative (d.digits * Nat.pow 10 d.exponent.toNat * one) 1
  else ofUnits? d.negative (d.digits * one) (Nat.pow 10 (-d.exponent).toNat)

/-! ## Arithmetic -/

/-- The number with another sign. -/
def withSign (negative : Bool) (x : Binary64) : Binary64 := { x with negative }

/-- The product, unless it is infinite. -/
def mul? (x y : Binary64) : Option Binary64 :=
  ofUnits? (x.negative != y.negative) (x.units * y.units) one

/-- The quotient by a number other than zero, unless it is infinite. -/
def div? (x y : Binary64) : Option Binary64 :=
  ofUnits? (x.negative != y.negative) (x.units * one) y.units

/-- The number nearest to `10 ^ n`. -/
def pow10? (n : Nat) : Option Binary64 := ofDecimal? { negative := false, digits := 1, exponent := n }

end Binary64

end Screening.Number
