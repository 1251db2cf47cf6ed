/-!
# Tokens

The words and signs of an expression, each with its class and the place where it stands.
-/

namespace Screening

/-- The class of a token. -/
inductive TokenKind
  | number
  | string
  | bool
  | aggregateFunction
  | field
  | logicOp
  | comparisonOp
  | identifier
  | wildcard
  | lparen
  | rparen
  deriving DecidableEq, Repr

/-- A class in words, for messages. -/
def TokenKind.describe : TokenKind → String
  | number => "number"
  | string => "string"
  | bool => "boolean"
  | aggregateFunction => "aggregate function"
  | field => "field"
  | logicOp => "logical operator"
  | comparisonOp => "comparison operator"
  | identifier => "word"
  | wildcard => "'*'"
  | lparen => "'('"
  | rparen => "')'"

/-- A token. Its text is in upper case, except that a string keeps its quotes and, unless
asked otherwise, its case. Its position counts the bytes before it. -/
structure Token where
  kind : TokenKind
  text : String
  position : Nat
  deriving DecidableEq, Repr

namespace Token

/-- A token in words, for messages. A sign speaks for itself; other tokens name their class. -/
def describe (t : Token) : String :=
  match t.kind with
  | .lparen | .rparen | .wildcard => s!"'{t.text}'"
  | kind => s!"{kind.describe} '{t.text}'"

/-- The place just behind the token, if its text is as long as what was written. -/
def finish (t : Token) : Nat := t.position + t.text.utf8ByteSize

end Token

end Screening
