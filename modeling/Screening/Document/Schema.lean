import Screening.Vocabulary.Named

/-!
# The layout of documents

A rule is stored as a JSON document. This module names the parts of one: the tag that tells
which kind of node an object is, and the members of each kind in order of declaration.
-/

namespace Screening

/-- The kinds of node. -/
inductive RuleTag
  | literal
  | field
  | wildcard
  | aggregate
  | comparison
  | logical
  deriving DecidableEq, Repr

instance : Named RuleTag where
  all := [.literal, .field, .wildcard, .aggregate, .comparison, .logical]
  name
    | .literal => "literal"
    | .field => "field"
    | .wildcard => "wildcard"
    | .aggregate => "aggregate"
    | .comparison => "comparison"
    | .logical => "logical"
  mem_all := by intro a; cases a <;> decide
  name_injective := by intro a b; cases a <;> cases b <;> decide

/-- The kinds of literal. -/
inductive LiteralTag
  | int32
  | int64
  | float
  | string
  | bool
  deriving DecidableEq, Repr

instance : Named LiteralTag where
  all := [.int32, .int64, .float, .string, .bool]
  name
    | .int32 => "int_value"
    | .int64 => "int64_value"
    | .float => "float_value"
    | .string => "string_value"
    | .bool => "bool_value"
  mem_all := by intro a; cases a <;> decide
  name_injective := by intro a b; cases a <;> cases b <;> decide

/-- The kinds of aggregate operand. -/
inductive OperandTag
  | field
  | wildcard
  deriving DecidableEq, Repr

instance : Named OperandTag where
  all := [.field, .wildcard]
  name
    | .field => "field"
    | .wildcard => "wildcard"
  mem_all := by intro a; cases a <;> decide
  name_injective := by intro a b; cases a <;> cases b <;> decide

/-- The member of a field reference. -/
inductive FieldPart
  | field
  deriving DecidableEq, Repr

instance : Named FieldPart where
  all := [.field]
  name | .field => "field"
  mem_all := by intro a; cases a; decide
  name_injective := by intro a b; cases a; cases b; decide

/-- The members of a wildcard: there are none. -/
inductive WildcardPart
  deriving DecidableEq, Repr

instance : Named WildcardPart where
  all := []
  name a := nomatch a
  mem_all a := nomatch a
  name_injective a := nomatch a

/-- The members of an aggregate. -/
inductive AggregatePart
  | function
  | operand
  deriving DecidableEq, Repr

instance : Named AggregatePart where
  all := [.function, .operand]
  name
    | .function => "function"
    | .operand => "operand"
  mem_all := by intro a; cases a <;> decide
  name_injective := by intro a b; cases a <;> cases b <;> decide

/-- The members of a comparison. -/
inductive ComparisonPart
  | operator
  | left
  | right
  deriving DecidableEq, Repr

instance : Named ComparisonPart where
  all := [.operator, .left, .right]
  name
    | .operator => "operator"
    | .left => "left"
    | .right => "right"
  mem_all := by intro a; cases a <;> decide
  name_injective := by intro a b; cases a <;> cases b <;> decide

/-- The members of a logical node. -/
inductive LogicalPart
  | operator
  | operands
  deriving DecidableEq, Repr

instance : Named LogicalPart where
  all := [.operator, .operands]
  name
    | .operator => "operator"
    | .operands => "operands"
  mem_all := by intro a; cases a <;> decide
  name_injective := by intro a b; cases a <;> cases b <;> decide

end Screening
