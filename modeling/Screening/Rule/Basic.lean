import Screening.Rule.Literal
import Screening.Vocabulary.Field
import Screening.Vocabulary.Operators

/-!
# Rules

The tree of a rule, and what can be measured on it. A negation has one operand and a junction
two or more by the shape of the type, so no operation can produce any other number.
-/

namespace Screening

/-- What an aggregate function ranges over. -/
inductive AggregateOperand
  | field (name : Field)
  | wildcard
  deriving DecidableEq, Repr

/-- An aggregate function applied to a field or to whole records. -/
structure Aggregate where
  function : AggregateFunction
  operand : AggregateOperand
  deriving DecidableEq, Repr

/-- A rule, or a part of one. -/
inductive Rule
  | literal (value : Literal)
  | field (name : Field)
  | wildcard
  | aggregate (call : Aggregate)
  | comparison (op : Comparator) (left right : Rule)
  | negation (operand : Rule)
  | junction (op : Junction) (first second : Rule) (more : List Rule)

namespace Rule

/-! ## Parts -/

/-- The operator and the operands of a logical node. -/
def logical? : Rule → Option (LogicOp × List Rule)
  | .negation operand => some (.not, [operand])
  | .junction op first second more => some (op.op, first :: second :: more)
  | _ => none

/-- Whether the rule is true or false of a transaction: a comparison or a logical node. Only
such a rule can be the operand of a logical operator. -/
def isCondition : Rule → Bool
  | .comparison .. | .negation _ | .junction .. => true
  | _ => false

mutual

/-- All nodes in pre-order. The operand of an aggregate is no node of its own. -/
def nodes : Rule → List Rule
  | .comparison op left right => .comparison op left right :: (left.nodes ++ right.nodes)
  | .negation operand => .negation operand :: operand.nodes
  | .junction op first second more =>
    .junction op first second more :: (first.nodes ++ second.nodes ++ nodesAll more)
  | leaf => [leaf]

/-- The nodes of all rules of a list, in order. -/
def nodesAll : List Rule → List Rule
  | [] => []
  | rule :: rest => rule.nodes ++ nodesAll rest

end

/-! ## Measures -/

mutual

/-- The number of nodes, the operands of aggregates among them. -/
def size : Rule → Nat
  | .aggregate _ => 2
  | .comparison _ left right => 1 + left.size + right.size
  | .negation operand => 1 + operand.size
  | .junction _ first second more => 1 + first.size + second.size + sizeAll more
  | _ => 1

/-- The number of nodes in all rules of a list. -/
def sizeAll : List Rule → Nat
  | [] => 0
  | rule :: rest => rule.size + sizeAll rest

end

mutual

/-- The height of the tree. A leaf has height one. -/
def depth : Rule → Nat
  | .aggregate _ => 2
  | .comparison _ left right => 1 + max left.depth right.depth
  | .negation operand => 1 + operand.depth
  | .junction _ first second more => 1 + max (max first.depth second.depth) (depthAll more)
  | _ => 1

/-- The height of the highest rule of a list. -/
def depthAll : List Rule → Nat
  | [] => 0
  | rule :: rest => max rule.depth (depthAll rest)

end

/-- The field that one node speaks of. -/
def field? : Rule → Option Field
  | .field name => some name
  | .aggregate ⟨_, .field name⟩ => some name
  | _ => none

/-- Adds `a` at the end unless it is there. -/
def addNew {α : Type} [DecidableEq α] (seen : List α) (a : α) : List α :=
  if a ∈ seen then seen else seen ++ [a]

/-- The fields that the rule speaks of, each once, in order of first appearance. -/
def fields (rule : Rule) : List Field := (rule.nodes.filterMap field?).foldl addNew []

/-! ## Equality -/

mutual

/-- Whether two trees are equal, where the two zeros of binary64 are one value. -/
def same : Rule → Rule → Bool
  | .literal a, .literal b => a.same b
  | .field a, .field b => a == b
  | .wildcard, .wildcard => true
  | .aggregate a, .aggregate b => a == b
  | .comparison op left right, .comparison op' left' right' =>
    op == op' && left.same left' && right.same right'
  | .negation a, .negation b => a.same b
  | .junction op first second more, .junction op' first' second' more' =>
    op == op' && first.same first' && second.same second' && sameAll more more'
  | _, _ => false

/-- Whether two lists hold equal trees at equal places. -/
def sameAll : List Rule → List Rule → Bool
  | [], [] => true
  | a :: as, b :: bs => a.same b && sameAll as bs
  | _, _ => false

end

end Rule

end Screening
