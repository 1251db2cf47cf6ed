/-!
# Decimals

Exact decimal numbers as they are written: a sign, a whole number of digits and a power of
ten. Nothing is rounded here.
-/

namespace Screening.Number

/-- The number `± digits · 10 ^ exponent`. -/
structure Decimal where
  negative : Bool
  digits : Nat
  exponent : Int
  deriving DecidableEq, Repr

/-- The number of decimal digits of `n`; zero has one. -/
def digitCount (n : Nat) : Nat := (Nat.toDigits 10 n).length

/-- The number written by the digits `cs`. -/
def ofDigits (cs : List Char) : Nat := Nat.ofDigitChars 10 cs 0

theorem ofDigits_toDigits (n : Nat) : ofDigits (Nat.toDigits 10 n) = n :=
  Nat.ofDigitChars_toDigits (by decide) (by decide)

/-- `-v` if `negative`, else `v`. -/
def signed (negative : Bool) (v : Nat) : Int := if negative then -(v : Int) else v

namespace Decimal

/-- The decimal with the digits `whole`, a point, the digits `fraction` and a power of ten. -/
def ofParts (negative : Bool) (whole fraction : List Char) (exponent : Int) : Decimal :=
  { negative, digits := ofDigits (whole ++ fraction), exponent := exponent - fraction.length }

/-- Moves up to `fuel` zeros from the end of the digits into the exponent. -/
def dropZeros : (fuel : Nat) → Decimal → Decimal
  | 0, d => d
  | fuel + 1, d =>
    if d.digits % 10 = 0 then
      dropZeros fuel { d with digits := d.digits / 10, exponent := d.exponent + 1 }
    else d

/-- The same number with the fewest digits; zero has the exponent zero. -/
def normalize (d : Decimal) : Decimal :=
  if d.digits = 0 then { d with exponent := 0 } else dropZeros (digitCount d.digits) d

end Decimal

end Screening.Number
