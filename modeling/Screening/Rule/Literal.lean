import Screening.Number.Numeral
import Screening.Number.Shortest

/-!
# Literals

The constants of a rule. A number that a person writes becomes the narrowest kind that holds
its value: 32 bits, 64 bits, or binary64.
-/

namespace Screening

open Number

/-- A constant. -/
inductive Literal
  | int32 (value : Int32)
  | int64 (value : Int64)
  | float (value : Binary64)
  | string (value : String)
  | bool (value : Bool)
  deriving DecidableEq

namespace Literal

/-! ## Numbers -/

/-- Whether an integer fits in 32 bits. -/
def fits32 (v : Int) : Bool := -0x80000000 ≤ v && v < 0x80000000

/-- Whether an integer fits in 64 bits. -/
def fits64 (v : Int) : Bool := -0x8000000000000000 ≤ v && v < 0x8000000000000000

/-- The narrowest literal for a 64-bit integer. -/
def narrow (v : Int64) : Literal :=
  if fits32 v.toInt then .int32 (.ofInt v.toInt) else .int64 v

/-- The narrowest literal for a binary64 number: a whole number of 64 bits is an integer. -/
def ofBinary64 (x : Binary64) : Literal :=
  match x.toInt? with
  | some v => if fits64 v then narrow (.ofInt v) else .float x
  | none => .float x

/-- The literal that a number's text stands for. An integer of 64 bits is taken as it is, any
other numeral as the nearest binary64 number; there is none if that is not finite. -/
def ofNumberText? (text : String) : Option Literal :=
  match (integer? text.toList).filter fits64 with
  | some v => some (narrow (.ofInt v))
  | none =>
    match numeral? text.toList with
    | some (.decimal d) => (Binary64.ofDecimal? d).map ofBinary64
    | _ => none

/-! ## Text -/

/-- Numbers in expressions have no exponent, and a tie between two shortest texts goes up. -/
def numberStyle : NumberStyle := ⟨.up, fun _ => true⟩

/-- A string in the quotes that it does not contain; single quotes if both would do. -/
def quote (s : String) : String :=
  if s.toList.contains '\x27' then "\"" ++ s ++ "\"" else "'" ++ s ++ "'"

/-- The literal as it is written in an expression. -/
def text : Literal → String
  | .int32 v => v.toInt.repr
  | .int64 v => v.toInt.repr
  | .float x => x.write numberStyle
  | .string s => quote s
  | .bool true => "TRUE"
  | .bool false => "FALSE"

/-! ## Equality -/

/-- Whether two literals are of one kind and value; the two zeros of binary64 are one value. -/
def same : Literal → Literal → Bool
  | .float x, .float y => x.same y
  | a, b => a == b

end Literal

end Screening
