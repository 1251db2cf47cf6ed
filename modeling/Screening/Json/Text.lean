import Screening.Json.Value
import Screening.Number.Shortest

/-!
# JSON text

The compact text of a JSON value: no blanks, members in the order in which the value has them,
and no escape where the character itself may stand.
-/

namespace Screening.Json

open Number

/-- Numbers are written without an exponent from `0.00001` up to sixteen digits before the
point, and a tie between two shortest texts goes to the even digit. -/
def numberStyle : NumberStyle := ⟨.even, fun e => -5 ≤ e && e ≤ 15⟩

/-- A character inside a string. Quotes, backslashes and control characters are escaped. -/
def escape (c : Char) : List Char :=
  match c with
  | '"' => ['\\', '"']
  | '\\' => ['\\', '\\']
  | '\x08' => ['\\', 'b']
  | '\t' => ['\\', 't']
  | '\n' => ['\\', 'n']
  | '\x0c' => ['\\', 'f']
  | '\r' => ['\\', 'r']
  | c =>
    if c.toNat < 0x20 then
      ['\\', 'u', '0', '0', (c.toNat / 16).digitChar, (c.toNat % 16).digitChar]
    else [c]

/-- A string in quotes, and the text behind it. -/
def writeString (s : String) (after : List Char) : List Char :=
  '"' :: (s.toList.flatMap escape ++ '"' :: after)

mutual

/-- The compact text of a value, and the text behind it. -/
def write : Json → (after : List Char) → List Char
  | .null, after => "null".toList ++ after
  | .bool true, after => "true".toList ++ after
  | .bool false, after => "false".toList ++ after
  | .integer v, after => v.repr.toList ++ after
  | .float x, after => (x.write numberStyle).toList ++ after
  | .string s, after => writeString s after
  | .array [], after => '[' :: ']' :: after
  | .array (item :: rest), after => '[' :: item.write (writeItems rest (']' :: after))
  | .object [], after => '{' :: '}' :: after
  | .object ((key, value) :: rest), after =>
    '{' :: writeString key (':' :: value.write (writeMembers rest ('}' :: after)))

/-- Items that are not the first, each behind a comma. -/
def writeItems : List Json → (after : List Char) → List Char
  | [], after => after
  | item :: rest, after => ',' :: item.write (writeItems rest after)

/-- Members that are not the first, each behind a comma. -/
def writeMembers : List (String × Json) → (after : List Char) → List Char
  | [], after => after
  | (key, value) :: rest, after =>
    ',' :: writeString key (':' :: value.write (writeMembers rest after))

end

/-- The compact text. -/
def text (value : Json) : String := String.ofList (value.write [])

end Screening.Json
