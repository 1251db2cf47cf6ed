import Screening.Json.Draft
import Screening.Json.Float

/-!
# Strings and numbers in JSON text

What a quote or a digit begins. A string is taken apart into characters and UTF-16 units, which
are then put together; a number is a sign, digits, a fraction and an exponent, all but the
digits optional.
-/

namespace Screening.Json

open Number

/-! ## Strings -/

/-- A part of a string: a character, or a UTF-16 unit given by its number. -/
inductive Piece
  | char (c : Char)
  | unit (n : Nat)
  deriving DecidableEq, Repr

/-- The value of a hexadecimal digit. -/
def hexDigit? (c : Char) : Option Nat :=
  if c.isDigit then some (c.toNat - '0'.toNat)
  else if 'a' ≤ c ∧ c ≤ 'f' then some (c.toNat - 'a'.toNat + 10)
  else if 'A' ≤ c ∧ c ≤ 'F' then some (c.toNat - 'A'.toNat + 10)
  else none

/-- The value of four hexadecimal digits. -/
def hex4? (a b c d : Char) : Option Nat := do
  return (((← hexDigit? a) * 16 + (← hexDigit? b)) * 16 + (← hexDigit? c)) * 16 + (← hexDigit? d)

/-- The character that stands for itself behind a backslash, or is named by a letter. -/
def unescape? : Char → Option Char
  | '"' => some '"'
  | '\\' => some '\\'
  | '/' => some '/'
  | 'b' => some '\x08'
  | 'f' => some '\x0c'
  | 'n' => some '\n'
  | 'r' => some '\r'
  | 't' => some '\t'
  | _ => none

/-- The parts of a string up to its closing quote, and the text behind it. -/
def pieces? : List Char → Option (List Piece × List Char)
  | [] => none
  | '"' :: rest => some ([], rest)
  | '\\' :: 'u' :: a :: b :: c :: d :: rest => do
    let n ← hex4? a b c d
    let (ps, after) ← pieces? rest
    return (.unit n :: ps, after)
  | '\\' :: e :: rest => do
    let c ← unescape? e
    let (ps, after) ← pieces? rest
    return (.char c :: ps, after)
  | c :: rest =>
    if c.toNat < 0x20 then none
    else do
      let (ps, after) ← pieces? rest
      return (.char c :: ps, after)

/-- The characters that the parts of a string make up. A unit of a surrogate pair is nothing
without the other. -/
def assemble? : List Piece → Option (List Char)
  | [] => some []
  | .char c :: rest => (assemble? rest).map (c :: ·)
  | .unit n :: rest =>
    if 0xD800 ≤ n ∧ n < 0xDC00 then
      match rest with
      | .unit m :: rest =>
        if 0xDC00 ≤ m ∧ m < 0xE000 then
          (assemble? rest).map (Char.ofNat (0x10000 + (n - 0xD800) * 0x400 + (m - 0xDC00)) :: ·)
        else none
      | _ => none
    else if 0xDC00 ≤ n ∧ n < 0xE000 then none
    else (assemble? rest).map (Char.ofNat n :: ·)

/-- The string behind an opening quote, and the text behind its closing one. -/
def string? (cs : List Char) : Option (Option String × List Char) :=
  (pieces? cs).map fun (ps, after) => ((assemble? ps).map String.ofList, after)

/-! ## Numbers -/

/-- Takes a point and the digits behind it, at least one, if there is a point. -/
def fraction? : List Char → Option (List Char × List Char)
  | '.' :: rest =>
    if (rest.takeWhile Char.isDigit).isEmpty then none
    else some (rest.takeWhile Char.isDigit, rest.dropWhile Char.isDigit)
  | cs => some ([], cs)

/-- Takes an exponent, if there is one. -/
def exponent? : List Char → Option (Option Int × List Char)
  | c :: rest =>
    if c = 'e' ∨ c = 'E' then
      let (negative, body) := match rest with
        | '-' :: body => (true, body)
        | '+' :: body => (false, body)
        | body => (false, body)
      let digits := body.takeWhile Char.isDigit
      if digits.isEmpty then none
      else some (some (signed negative (ofDigits digits)), body.dropWhile Char.isDigit)
    else some (none, c :: rest)
  | [] => some (none, [])

/-- The draft of a number. Digits alone are an integer if 64 bits hold it, signed or not; a
negative zero is none. -/
def numberDraft (floats : FloatReading) (negative : Bool) (whole fraction : List Char)
    (exponent : Option Int) : Draft :=
  let v := signed negative (ofDigits whole)
  if fraction.isEmpty && exponent.isNone && (!negative || v != 0) &&
      -0x8000000000000000 ≤ v && v < 0x10000000000000000 then
    .integer v
  else .float (floats negative whole fraction exponent)

/-- The number at the front of a text. It has no zero in front of other digits. -/
def number? (floats : FloatReading) (cs : List Char) : Option (Draft × List Char) := do
  let (negative, body) := match cs with
    | '-' :: body => (true, body)
    | body => (false, body)
  let whole := body.takeWhile Char.isDigit
  if whole.isEmpty || (whole.head? == some '0' && whole.length != 1) then none
  let (fraction, rest) ← fraction? (body.dropWhile Char.isDigit)
  let (exponent, rest) ← exponent? rest
  return (numberDraft floats negative whole fraction exponent, rest)

end Screening.Json
