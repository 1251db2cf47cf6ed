import Screening.Number.Binary64

/-!
# Shortest digits

The decimal text of a binary64 number has the fewest digits that still read back as the same
number, and of those the nearest to its value. How far a text goes without an exponent, and
which way an exact tie between two nearest ones goes, is a choice of whoever writes it.
-/

namespace Screening.Number

/-- Where the digits go when the two nearest candidates are equally near. -/
inductive Tie
  | up
  | even
  deriving DecidableEq, Repr

/-- How numbers are written. -/
structure NumberStyle where
  tie : Tie
  /-- Whether a number whose first digit counts `10 ^ e` is written without an exponent. -/
  positional : (e : Int) → Bool

namespace Binary64

/-! ## Choosing the digits -/

/-- Of the two decimals around `exact` that do without its last `cut` digits, the nearer one
that `readsBack` accepts. -/
def nearest? (tie : Tie) (readsBack : Decimal → Bool) (exact : Decimal) (cut : Nat) :
    Option Decimal :=
  let unit := Nat.pow 10 cut
  let low := exact.digits / unit
  let past := exact.digits % unit
  let decimal (digits : Nat) : Decimal :=
    { negative := exact.negative, digits, exponent := exact.exponent + cut }
  let lowFirst :=
    if 2 * past = unit then tie == .even && low % 2 == 0 else decide (2 * past < unit)
  let (near, far) :=
    if lowFirst then (decimal low, decimal (low + 1)) else (decimal (low + 1), decimal low)
  if readsBack near then some near else if readsBack far then some far else none

/-- The nearer of the two decimals around `x` that do without the last `cut` digits of its exact
value, if it reads back as `x`, else the other one if that does. -/
def candidate? (tie : Tie) (x : Binary64) (cut : Nat) : Option Decimal :=
  nearest? tie (ofDecimal? · == some x) x.toDecimal cut

/-- The shortest digits of `x`: the first candidate of one, two, … seventeen digits. Seventeen
always suffice; the exact value stands in reserve. -/
def shortest (tie : Tie) (x : Binary64) : Decimal :=
  let count := digitCount x.toDecimal.digits
  let found := (List.range' 1 17).findSome? fun n => candidate? tie x (count - n)
  (found.getD x.toDecimal).normalize

/-! ## Laying them out -/

/-- The digits with a point after the one that counts ones, and zeros where digits lack. -/
def layPositional (digits : List Char) (exponent : Int) : List Char :=
  if 0 ≤ exponent then digits ++ List.replicate exponent.toNat '0' ++ ['.', '0']
  else
    let places := (-exponent).toNat
    let padded := List.replicate (places + 1 - digits.length) '0' ++ digits
    padded.take (padded.length - places) ++ '.' :: padded.drop (padded.length - places)

/-- One digit, a point before the others if there are any, and a signed exponent. -/
def layScientific (digits : List Char) (e : Int) : List Char :=
  let fraction := match digits.tail with
    | [] => []
    | rest => '.' :: rest
  let sign := if e < 0 then '-' else '+'
  digits.take 1 ++ fraction ++ 'e' :: sign :: Nat.toDigits 10 e.natAbs

/-- A decimal in the given style, with the sign in front. -/
def layOut (style : NumberStyle) (d : Decimal) : String :=
  let digits := Nat.toDigits 10 d.digits
  let e : Int := d.exponent + digits.length - 1
  let body := if style.positional e then layPositional digits d.exponent else layScientific digits e
  String.ofList (if d.negative then '-' :: body else body)

/-- The number in the given style. -/
def write (style : NumberStyle) (x : Binary64) : String := layOut style (x.shortest style.tie)

end Binary64

end Screening.Number
