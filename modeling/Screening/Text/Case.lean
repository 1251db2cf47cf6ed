import Screening.Text.Blank
import Screening.Text.CaseTable

/-!
# Case mapping

Full Unicode upper and lower case. A character may become several (`ß` becomes `SS`), and a
capital sigma that ends a word becomes `ς` rather than `σ`.
-/

namespace Screening.Text

/-- The first mapping that one of the bands gives for `n`, or `n` itself. -/
def mapBands (bands : List CaseBand) (n : Nat) : Nat :=
  (bands.findSome? (·.map? n)).getD n

/-! ## Upper case -/

/-- The upper case of one character. -/
def upperChar (c : Char) : List Char :=
  if c.toNat < 128 then [c.toUpper]
  else match upperExpansions.lookup c.toNat with
    | some points => points.map Char.ofNat
    | none => [Char.ofNat (mapBands upperBands c.toNat)]

/-- The upper case of a text. -/
def upper (text : String) : String :=
  String.ofList (text.toList.flatMap upperChar)

/-! ## Lower case -/

/-- Whether the next character that is not passed over is cased. -/
def meetsCased (cs : List Char) : Bool :=
  match cs.dropWhile (inRanges caseIgnorable) with
  | c :: _ => inRanges cased c
  | [] => false

/-- The lower case of one character where it does not depend on its neighbours. -/
def lowerChar (c : Char) : List Char :=
  if c.toNat < 128 then [c.toLower]
  else if c = 'İ' then ['i', '\u0307']
  else [Char.ofNat (mapBands lowerBands c.toNat)]

/-- The lower case of `cs`, where `before` holds the characters in front of it, nearest
first. A capital sigma ends a word if a cased character comes before it and none after. -/
def lowerChars (before : List Char) : List Char → List Char
  | [] => []
  | c :: rest =>
    let mapped :=
      if c = 'Σ' then [if meetsCased before && !meetsCased rest then 'ς' else 'σ']
      else lowerChar c
    mapped ++ lowerChars (c :: before) rest

/-- The lower case of a text. -/
def lower (text : String) : String :=
  String.ofList (lowerChars [] text.toList)

end Screening.Text
