import Screening.Document.Schema
import Screening.Document.Shape
import Screening.Json.Read
import Screening.Vocabulary.Field
import Screening.Vocabulary.Operators

/-!
# Decoding documents

Reading a rule back from its document, be it a text or a value. A value is decoded as a draft
of itself.
-/

namespace Screening

open Json (Draft)

namespace Decode

/-! ## Parts of rules -/

variable (source : Source)

/-- A literal. -/
def literal : Decoder Literal :=
  variant source (fun _ => .error .malformed) fun (tag : LiteralTag) _ value =>
    match tag with
    | .int32 => (int32 value).map .int32
    | .int64 => (int64 value).map .int64
    | .float => (float value).map .float
    | .string => (string value).map .string
    | .bool => (bool value).map .bool

/-- A reference to a field. -/
def fieldRef : Decoder Field :=
  record none (fun room _ (_ : FieldPart) value => (name Field source room value).map some)
    (need FieldPart.field)

/-- The body of a wildcard: an object whose members do not matter. In a text an array without
items will do. -/
def wildcardBody : Decoder Unit
  | _ + 1, .object members closed => do
    named (fun _ (f : WildcardPart) _ => nomatch f) [] () members
    if closed then return () else throw .malformed
  | _ + 1, .array [] true => if source = .text then .ok () else .error .malformed
  | _, _ => .error .malformed

/-- What an aggregate ranges over. -/
def aggregateOperand : Decoder AggregateOperand :=
  variant source (fun _ => .error .malformed) fun (tag : OperandTag) room value =>
    match tag with
    | .field => (fieldRef source room value).map .field
    | .wildcard => (wildcardBody source room value).map fun _ => .wildcard

/-- The parts of an aggregate that were found. -/
structure AggregateParts where
  function : Option AggregateFunction := none
  operand : Option AggregateOperand := none

/-- An aggregate. -/
def aggregate : Decoder Aggregate :=
  record (σ := AggregateParts) {}
    (fun room parts f value =>
      match f with
      | AggregatePart.function =>
        (name AggregateFunction source room value).map fun x => { parts with function := some x }
      | .operand =>
        (aggregateOperand source room value).map fun x => { parts with operand := some x })
    fun parts => do
      return ⟨← need AggregatePart.function parts.function,
        ← need AggregatePart.operand parts.operand⟩

/-- The parts of a comparison that were found. -/
structure ComparisonParts where
  operator : Option Comparator := none
  left : Option Rule := none
  right : Option Rule := none

/-- The body of a comparison, given how its sides are decoded. -/
def comparison (side : Decoder Rule) : Decoder Rule :=
  record (σ := ComparisonParts) {}
    (fun room parts f value =>
      match f with
      | ComparisonPart.operator =>
        (name Comparator source room value).map fun x => { parts with operator := some x }
      | .left => (side room value).map fun x => { parts with left := some x }
      | .right => (side room value).map fun x => { parts with right := some x })
    fun parts => do
      return .comparison (← need ComparisonPart.operator parts.operator)
        (← need ComparisonPart.left parts.left) (← need ComparisonPart.right parts.right)

/-- The parts of a logical node that were found. -/
structure LogicalParts where
  operator : Option LogicOp := none
  operands : Option (List Rule) := none

/-- The body of a logical node, given how its operands are decoded. Their number is checked
when all is read. -/
def logical (operand : Decoder Rule) : Decoder Rule :=
  record (σ := LogicalParts) {}
    (fun room parts f value =>
      match f with
      | LogicalPart.operator =>
        (name LogicOp source room value).map fun x => { parts with operator := some x }
      | .operands =>
        (sequence operand room value).map fun x => { parts with operands := some x })
    fun parts => do
      let op ← need LogicalPart.operator parts.operator
      let operands ← need LogicalPart.operands parts.operands
      (Rule.ofOperands op operands).mapError .arity

/-! ## Rules -/

/-- A rule, given how the rules inside it are decoded. -/
def ruleWith (inner : Decoder Rule) : Decoder Rule :=
  variant source (fun _ => .error .malformed) fun (tag : RuleTag) room value =>
    match tag with
    | .literal => (literal source room value).map .literal
    | .field => (fieldRef source room value).map .field
    | .wildcard => (wildcardBody source room value).map fun _ => .wildcard
    | .aggregate => (aggregate source room value).map .aggregate
    | .comparison => comparison source inner room value
    | .logical => logical source inner room value

/-- A rule in which rules lie `levels` deep at most. -/
def ruleAt : (levels : Nat) → Decoder Rule
  | 0 => fun _ _ => .error .malformed
  | levels + 1 => ruleWith source (ruleAt levels)

/-- A rule. Every rule inside another lies in an array or object of its own, so the room left
bounds how deep rules lie. -/
def rule : Decoder Rule := fun room draft => ruleAt source (room + 1) room draft

/-! ## Whole documents -/

/-- Decodes a text, all of it. -/
def ofText {α : Type} (decoder : Decoder α) (text : String)
    (floats : Json.FloatReading := .bestEffort) : Except DecodeFault α := do
  let (draft, ends) := Json.readDraft text floats
  let a ← decoder Json.maxNesting draft
  if ends then return a else throw .malformed

end Decode

namespace Rule

/-- The rule that a document's text stands for. -/
def ofJsonText (text : String) (floats : Json.FloatReading := .bestEffort) :
    Except DecodeFault Rule :=
  Decode.ofText (Decode.rule .text) text floats

/-- The rule that a document stands for, however deep it is. -/
def ofDocument (document : Json) : Except DecodeFault Rule :=
  Decode.rule .value document.height document.draft

end Rule

end Screening
