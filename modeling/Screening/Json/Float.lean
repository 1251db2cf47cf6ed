import Screening.Number.Binary64

/-!
# Readings of floats

What binary64 number a number in JSON text is, if it is no integer of 64 bits. The nearest one is
one answer. The reader gives another, which costs less: it takes as many digits as fit in 64 bits,
and multiplies or divides by a power of ten in binary64. Each of these steps rounds, so the result
may be a neighbour of the nearest number.
-/

namespace Screening.Json

open Number

/-- How a number is read that is written with these digits before and behind the point and with
this exponent. It has no value if it is too large. -/
abbrev FloatReading :=
  (negative : Bool) → (whole fraction : List Char) → (exponent : Option Int) → Option Binary64

namespace FloatReading

/-- The nearest number. -/
def nearest : FloatReading := fun negative whole fraction exponent =>
  Binary64.ofDecimal? (.ofParts negative whole fraction (exponent.getD 0))

/-! ## Best effort -/

/-- Puts digits behind those of `significand` for as long as 64 bits hold them, and returns the
digits that are left. -/
def gather : (significand : Nat) → List Char → Nat × List Char
  | significand, [] => (significand, [])
  | significand, c :: cs =>
    let longer := 10 * significand + (c.toNat - '0'.toNat)
    if longer < 0x10000000000000000 then gather longer cs else (significand, c :: cs)

/-- Multiplies by `10 ^ n`. Powers above `10 ^ 308` are no binary64 numbers, and no number but zero
can be multiplied by them. -/
def raise? (x : Binary64) (n : Nat) : Option Binary64 :=
  if n ≤ 308 then do x.mul? (← Binary64.pow10? n)
  else if x.significand = 0 then some x
  else none

/-- Divides by `10 ^ 308`, so many times or until nothing is left. -/
def shrink? : (times : Nat) → Binary64 → Option Binary64
  | 0, x => some x
  | times + 1, x =>
    if x.significand = 0 then some x
    else do shrink? times (← x.div? (← Binary64.pow10? 308))

/-- Divides by `10 ^ n`, in steps if need be. -/
def lower? (x : Binary64) (n : Nat) : Option Binary64 := do
  (← shrink? ((n - 1) / 308) x).div? (← Binary64.pow10? (n - 308 * ((n - 1) / 308)))

/-- The number `significand · 10 ^ exponent`, rounded at each step. -/
def scaled? (significand : Nat) (exponent : Int) : Option Binary64 := do
  let x ← Binary64.ofInt? significand
  if 0 ≤ exponent then raise? x exponent.toNat else lower? x (-exponent).toNat

/-- An exponent of more than 31 bits makes any number but zero infinite or zero. -/
def exceeding? (significand : Nat) (exponent : Int) : Option Binary64 :=
  if significand ≠ 0 ∧ 0 < exponent then none else some (.zero false)

/-- As many digits as 64 bits hold, scaled by what the exponent and the point make of them. Digits
before the point that do not fit count as zeros, and those behind it are ignored. -/
def bestEffort : FloatReading := fun negative whole fraction exponent =>
  let (significand, dropped) := gather 0 whole
  let (significand, ignored) := gather significand fraction
  let places : Int := dropped.length - (fraction.length - ignored.length : Nat)
  let size := match exponent with
    | none => scaled? significand places
    | some e =>
      if 0x7fffffff < e.natAbs then exceeding? significand e else scaled? significand (places + e)
  size.map (·.withSign negative)

end FloatReading

end Screening.Json
