import Screening.Document.Schema
import Screening.Json.Text
import Screening.Rule.Basic
import Screening.Vocabulary.Category

/-!
# Encoding documents

The JSON document of a rule: every node is an object with one member, whose key is the kind of
node and whose value holds its parts.
-/

namespace Screening

/-! ## Parts -/

/-- An object with one member, named for a kind. -/
def tagged {τ : Type} [Named τ] (tag : τ) (body : Json) : Json :=
  .object [(Named.name tag, body)]

/-- A member named for a part. -/
def part {φ : Type} [Named φ] (key : φ) (value : Json) : String × Json := (Named.name key, value)

/-- A member of a closed set is encoded as its name. -/
def encodeName {α : Type} [Named α] (a : α) : Json := .string (Named.name a)

/-- A literal. -/
def Literal.encode : Literal → Json
  | .int32 v => tagged LiteralTag.int32 (.integer v.toInt)
  | .int64 v => tagged LiteralTag.int64 (.integer v.toInt)
  | .float x => tagged LiteralTag.float (.float x)
  | .string s => tagged LiteralTag.string (.string s)
  | .bool b => tagged LiteralTag.bool (.bool b)

/-- A reference to a field. -/
def Field.encodeRef (name : Field) : Json := .object [part FieldPart.field (encodeName name)]

/-- What an aggregate ranges over. -/
def AggregateOperand.encode : AggregateOperand → Json
  | .field name => tagged OperandTag.field name.encodeRef
  | .wildcard => tagged OperandTag.wildcard (.object [])

/-- An aggregate. -/
def Aggregate.encode (a : Aggregate) : Json :=
  .object [part AggregatePart.function (encodeName a.function),
    part AggregatePart.operand a.operand.encode]

namespace Rule

/-- The body of a comparison, given its encoded sides. -/
def comparisonBody (op : Comparator) (left right : Json) : Json :=
  .object [part ComparisonPart.operator (encodeName op), part ComparisonPart.left left,
    part ComparisonPart.right right]

/-- The body of a logical node, given its encoded operands. -/
def logicalBody (op : LogicOp) (operands : List Json) : Json :=
  .object [part LogicalPart.operator (encodeName op),
    part LogicalPart.operands (.array operands)]

/-! ## Rules -/

mutual

/-- The document of a rule, with members in order of declaration. -/
def encode : Rule → Json
  | .literal value => tagged RuleTag.literal value.encode
  | .field name => tagged RuleTag.field name.encodeRef
  | .wildcard => tagged RuleTag.wildcard (.object [])
  | .aggregate call => tagged RuleTag.aggregate call.encode
  | .comparison op left right =>
    tagged RuleTag.comparison (comparisonBody op left.encode right.encode)
  | .negation operand => tagged RuleTag.logical (logicalBody .not [operand.encode])
  | .junction op first second more =>
    tagged RuleTag.logical
      (logicalBody op.op (first.encode :: second.encode :: encodeAll more))

/-- The documents of all rules of a list. -/
def encodeAll : List Rule → List Json
  | [] => []
  | rule :: rest => rule.encode :: encodeAll rest

end

/-- The document of a rule as a value, with sorted keys. -/
def document (rule : Rule) : Json := rule.encode.sorted

/-- The document of a rule as compact text. -/
def jsonText (rule : Rule) : String := rule.encode.text

end Rule

end Screening
