import Screening.Text.Ascii
import Screening.Text.Case
import Screening.Token.Basic
import Screening.Vocabulary.Field
import Screening.Vocabulary.Operators

/-!
# Lexemes

What can stand at the front of a text: a number, a quoted string, a word or a sign. Each is
as long as it can be, and no two kinds begin with the same character.
-/

namespace Screening

/-- A lexeme at the front of a text, and the text after it. -/
structure Lexeme where
  kind : TokenKind
  raw : List Char
  rest : List Char
  deriving DecidableEq, Repr

namespace Lexeme

/-! ## Words -/

/-- The class of a word in upper case. Reserved words come before all others. -/
def classify (word : String) : TokenKind :=
  if word = "TRUE" ∨ word = "FALSE" then .bool
  else if Named.isName AggregateFunction word then .aggregateFunction
  else if Named.isName Field word then .field
  else if Named.isName LogicOp word then .logicOp
  else .identifier

/-- A word. -/
def word? : List Char → Option Lexeme
  | c :: cs =>
    if Text.isWordStart c then
      let raw := c :: cs.takeWhile Text.isWordPart
      some ⟨classify (Text.upperAscii (String.ofList raw)), raw, cs.dropWhile Text.isWordPart⟩
    else none
  | [] => none

/-! ## Numbers and strings -/

/-- Digits, and behind them a point and more digits or none. -/
def unsigned? (cs : List Char) : Option (List Char × List Char) :=
  let whole := cs.takeWhile Char.isDigit
  if whole.isEmpty then none
  else match cs.dropWhile Char.isDigit with
    | '.' :: rest =>
      some (whole ++ '.' :: rest.takeWhile Char.isDigit, rest.dropWhile Char.isDigit)
    | rest => some (whole, rest)

/-- A number: an optional minus sign and what `unsigned?` takes. -/
def number? : List Char → Option Lexeme
  | '-' :: cs => (unsigned? cs).map fun (raw, rest) => ⟨.number, '-' :: raw, rest⟩
  | cs => (unsigned? cs).map fun (raw, rest) => ⟨.number, raw, rest⟩

/-- Single or double quotes. -/
def isQuote (c : Char) : Bool := c == '\x27' || c == '"'

/-- A string: from a quote to the next quote of the same sort, whatever stands between. -/
def string? : List Char → Option Lexeme
  | quote :: cs =>
    if isQuote quote then
      match cs.dropWhile (· != quote) with
      | closing :: rest => some ⟨.string, quote :: cs.takeWhile (· != quote) ++ [closing], rest⟩
      | [] => none
    else none
  | [] => none

/-! ## Signs -/

/-- A sign: a comparator, a parenthesis or a star. Of two comparators the longer is taken. -/
def sign? : List Char → Option Lexeme
  | '=' :: '=' :: rest => some ⟨.comparisonOp, ['=', '='], rest⟩
  | '!' :: '=' :: rest => some ⟨.comparisonOp, ['!', '='], rest⟩
  | '>' :: '=' :: rest => some ⟨.comparisonOp, ['>', '='], rest⟩
  | '<' :: '=' :: rest => some ⟨.comparisonOp, ['<', '='], rest⟩
  | '>' :: rest => some ⟨.comparisonOp, ['>'], rest⟩
  | '<' :: rest => some ⟨.comparisonOp, ['<'], rest⟩
  | '=' :: rest => some ⟨.comparisonOp, ['='], rest⟩
  | '(' :: rest => some ⟨.lparen, ['('], rest⟩
  | ')' :: rest => some ⟨.rparen, [')'], rest⟩
  | '*' :: rest => some ⟨.wildcard, ['*'], rest⟩
  | _ => none

/-! ## Any lexeme -/

/-- The lexeme at the front of a text. -/
def front? (cs : List Char) : Option Lexeme :=
  number? cs <|> string? cs <|> word? cs <|> sign? cs

/-- The text of the token that a lexeme becomes. -/
def text (keepCase : Bool) (x : Lexeme) : String :=
  match x.kind with
  | .string => if keepCase then String.ofList x.raw else Text.upper (String.ofList x.raw)
  | _ => Text.upperAscii (String.ofList x.raw)

/-- The token that a lexeme becomes where it stands. -/
def token (keepCase : Bool) (position : Nat) (x : Lexeme) : Token :=
  ⟨x.kind, x.text keepCase, position⟩

end Lexeme

end Screening
