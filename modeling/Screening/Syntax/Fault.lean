import Screening.Rule.Text
import Screening.Token.Basic
import Screening.Vocabulary.Category

/-!
# Syntax errors

Why tokens cannot be read as a rule: a cause, the place it was noticed at, and the category
whose sample expression is shown with it.
-/

namespace Screening

/-- What was looked for. -/
inductive Wanted
  | operand
  | comparator
  | comparatorAfterAggregate
  | aggregateFunction
  | openAfterFunction
  | argument
  | closeArgument
  | closeGroup
  deriving DecidableEq, Repr

/-- What was looked for, in words. -/
def Wanted.text : Wanted → String
  | operand => "a number, string, field, aggregate function or '('"
  | comparator => "a comparison operator"
  | comparatorAfterAggregate => "a comparison operator after the aggregate"
  | aggregateFunction => "an aggregate function"
  | openAfterFunction => "'(' after the aggregate function"
  | argument => "a field or '*' as the aggregate argument"
  | closeArgument => "')' after the aggregate argument"
  | closeGroup => "')' to close the group"

/-- The cause of a syntax error. -/
inductive SyntaxFault
  /-- The text has more bytes than allowed. -/
  | tooLong (bytes limit : Nat)
  /-- Groups and negations enclose one another more often than allowed. -/
  | tooDeep (limit : Nat)
  /-- The tokens end too early. -/
  | unexpectedEnd (wanted : Wanted)
  /-- Another token stands where `wanted` was looked for. -/
  | found (wanted : Wanted) (token : Token)
  /-- A token that begins no operand stands where one was looked for. -/
  | noOperand (token : Token)
  /-- A star stands outside an aggregate. -/
  | strayWildcard
  /-- A token that is neither a field nor a star stands as an aggregate's argument. -/
  | badArgument (function : AggregateFunction) (token : Token)
  /-- Tokens are left over; this is the first of them. -/
  | leftover (token : Token)
  /-- A number's text is a numeral, but no finite number. -/
  | numberOutOfRange (text : String)
  | numberInvalid (text : String)
  | malformedString (text : String)
  | unknownField (text : String)
  | unknownFunction (text : String)
  | unknownComparator (text : String)
  /-- The operand of a logical operator is no condition. -/
  | noCondition (op : LogicOp) (rule : Rule)
  /-- A threshold rule is something else than a comparison. -/
  | noComparison (rule : Rule)
  /-- A pattern rule begins with something else than an aggregate. -/
  | noAggregate (rule : Rule)
  /-- A pattern rule ends with something else than a literal. -/
  | noLiteral (rule : Rule)

/-- The cause in words. -/
def SyntaxFault.text : SyntaxFault → String
  | tooLong bytes limit => s!"expression is {bytes} bytes long; the limit is {limit}"
  | tooDeep limit => s!"expression nests deeper than {limit} levels"
  | unexpectedEnd wanted => s!"unexpected end of expression, expected {wanted.text}"
  | found wanted token => s!"expected {wanted.text}, found {token.describe}"
  | noOperand token => s!"unexpected {token.describe}; expected {Wanted.operand.text}"
  | strayWildcard => "'*' is only valid as an aggregate function argument"
  | badArgument function token =>
    s!"argument of {function.name} must be a field (e.g. AMOUNT) or '*', found {token.describe}"
  | leftover token =>
    s!"failed to process the whole expression; unprocessed {token.describe} remains"
  | numberOutOfRange text => s!"number '{text}' is out of range"
  | numberInvalid text => s!"number '{text}' is not valid"
  | malformedString text => s!"malformed string {text}"
  | unknownField text => s!"unknown field '{text}'"
  | unknownFunction text => s!"unknown aggregate function '{text}'"
  | unknownComparator text => s!"unknown comparison operator '{text}'"
  | noCondition op rule =>
    s!"operand of {op.name} must be a comparison such as AMOUNT > 100, found {rule.describe}"
  | noComparison rule => s!"THRESHOLD rule must be a comparison, found {rule.describe}"
  | noAggregate rule =>
    "PATTERN rule must start with an aggregate function such as COUNT(AMOUNT) or COUNT(*), found " ++
      rule.describe
  | noLiteral (.field name) =>
    s!"right-hand side of a PATTERN rule must be a literal value, not field {name.name}"
  | noLiteral rule =>
    s!"right-hand side of a PATTERN rule must be a literal value, found {rule.describe}"

/-- A syntax error. -/
structure SyntaxError where
  category : Category
  /-- The byte that the error is tied to, if it is tied to one. -/
  position : Option Nat
  fault : SyntaxFault

namespace SyntaxError

/-- The error in words, without its place. -/
def detail (e : SyntaxError) : String := e.fault.text

/-- An expression to model one's own on. A limit that was exceeded has none; a fault about
aggregates has one of its own; for all others the category gives it. -/
def sample (e : SyntaxError) : Option String :=
  match e.fault with
  | .tooLong .. | .tooDeep _ => none
  | .strayWildcard => some "COUNT(*) >= 10"
  | .badArgument .. => some "COUNT(AMOUNT) > 5"
  | _ => some e.category.sample

/-- What is said about a syntax error. -/
def message (e : SyntaxError) : String :=
  let place := match e.position with
    | some p => s!" at position {p}"
    | none => ""
  let sample := match e.sample with
    | some text => s!" (example: {text})"
    | none => ""
  "syntax error" ++ place ++ ": " ++ e.detail ++ sample

end SyntaxError

end Screening
