import Screening.Number.Decimal

/-!
# Numerals

What counts as the text of a number. An integer is an optional sign and digits. A numeral is
an optional sign, digits with an optional point on either side, and an optional exponent; the
words for infinity and for no number are numerals too, but have no decimal.
-/

namespace Screening.Number

/-- What a numeral stands for. -/
inductive Numeral
  | decimal (value : Decimal)
  /-- Infinity, or no number at all. -/
  | special
  deriving DecidableEq, Repr

/-- Takes an optional sign off the text; true is minus. -/
def takeSign : List Char → Bool × List Char
  | '-' :: rest => (true, rest)
  | '+' :: rest => (false, rest)
  | cs => (false, cs)

/-- Reads an optional sign and at least one digit, and nothing after them. -/
def integer? (cs : List Char) : Option Int :=
  let (negative, digits) := takeSign cs
  if digits.isEmpty || !digits.all Char.isDigit then none
  else some (signed negative (ofDigits digits))

/-- Reads what may follow the digits of a numeral: nothing, or an exponent. -/
def exponent? : List Char → Option Int
  | [] => some 0
  | c :: rest => if c = 'e' ∨ c = 'E' then integer? rest else none

/-- Takes a point and the digits after it off the text, if it begins with a point. -/
def takeFraction : List Char → List Char × List Char
  | '.' :: rest => (rest.takeWhile Char.isDigit, rest.dropWhile Char.isDigit)
  | cs => ([], cs)

/-- The words that are numerals without a decimal, in lower case. -/
def specialWords : List (List Char) := ["inf".toList, "infinity".toList, "nan".toList]

/-- Reads a numeral. At least one digit stands before or after the point. -/
def numeral? (cs : List Char) : Option Numeral :=
  let (negative, body) := takeSign cs
  if specialWords.contains (body.map Char.toLower) then some .special
  else
    let whole := body.takeWhile Char.isDigit
    let (fraction, rest) := takeFraction (body.dropWhile Char.isDigit)
    if whole.isEmpty && fraction.isEmpty then none
    else (exponent? rest).map fun e => .decimal (.ofParts negative whole fraction e)

end Screening.Number
