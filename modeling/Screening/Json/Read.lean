import Screening.Json.Scalar
import Screening.Text.Ascii

/-!
# Reading JSON text

From a text to the draft of the value at its front. Nothing is refused here: where the text
stops making sense, the draft is broken. What becomes of numbers that are no integers is up to a
reading of floats; the program's own is the best effort.
-/

namespace Screening.Json

/-- The text without the blanks at its front. -/
def skip (cs : List Char) : List Char := cs.dropWhile Text.isSpace

section

variable (floats : FloatReading)

mutual

/-- The draft of the value at the front of a text, and the text behind it unless the draft is
broken off. -/
def readValue : (steps : Nat) → List Char → Draft × Option (List Char)
  | 0, _ => (.broken, none)
  | steps + 1, cs =>
    match skip cs with
    | '{' :: rest =>
      match skip rest with
      | '}' :: after => (.object [] true, some after)
      | rest =>
        let (members, after) := readMembers steps rest
        (.object members after.isSome, after)
    | '[' :: rest =>
      match skip rest with
      | ']' :: after => (.array [] true, some after)
      | rest =>
        let (items, after) := readItems steps rest
        (.array items after.isSome, after)
    | '"' :: rest =>
      match string? rest with
      | some (s, after) => (.string s, some after)
      | none => (.broken, none)
    | 'n' :: 'u' :: 'l' :: 'l' :: after => (.null, some after)
    | 't' :: 'r' :: 'u' :: 'e' :: after => (.bool true, some after)
    | 'f' :: 'a' :: 'l' :: 's' :: 'e' :: after => (.bool false, some after)
    | rest =>
      match number? floats rest with
      | some (number, after) => (number, some after)
      | none => (.broken, none)

/-- The items of an array up to its closing bracket; there is one at least. -/
def readItems : (steps : Nat) → List Char → List Draft × Option (List Char)
  | 0, _ => ([], none)
  | steps + 1, cs =>
    match readValue steps cs with
    | (item, none) => ([item], none)
    | (item, some rest) =>
      match skip rest with
      | ',' :: rest =>
        let (items, after) := readItems steps rest
        (item :: items, after)
      | ']' :: after => ([item], some after)
      | _ => ([item], none)

/-- The members of an object up to its closing brace; there is one at least. -/
def readMembers : (steps : Nat) → List Char → List (Option String × Draft) × Option (List Char)
  | 0, _ => ([], none)
  | steps + 1, cs =>
    match skip cs with
    | '"' :: rest =>
      match string? rest with
      | none => ([], none)
      | some (key, rest) =>
        match skip rest with
        | ':' :: rest =>
          match readValue steps rest with
          | (value, none) => ([(key, value)], none)
          | (value, some rest) =>
            match skip rest with
            | ',' :: rest =>
              let (members, after) := readMembers steps rest
              ((key, value) :: members, after)
            | '}' :: after => ([(key, value)], some after)
            | _ => ([(key, value)], none)
        | _ => ([(key, .broken)], none)
    | _ => ([], none)

end

end

/-- The draft of a text, and whether nothing but blanks follows it. A character is looked at
in two steps at most. -/
def readDraft (text : String) (floats : FloatReading := .bestEffort) : Draft × Bool :=
  let (draft, rest) := readValue floats (2 * text.toList.length + 2) text.toList
  (draft, rest.any fun rest => (skip rest).isEmpty)

/-! ## Whole texts -/

/-- How many arrays and objects may enclose one another in a text. -/
def maxNesting : Nat := 127

/-- The value that a text stands for. -/
def parse? (text : String) (floats : FloatReading := .bestEffort) : Option Json :=
  let (draft, ends) := readDraft text floats
  if ends then draft.value? maxNesting else none

end Screening.Json
