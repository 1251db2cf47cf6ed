import Screening.Rule.Basic

/-!
# Building rules

Rules put together from parts. Joining keeps a chain of one operator flat on its left, and a
logical node is built from a list of operands only if the list is as long as the operator
needs.
-/

namespace Screening

/-- A logical operator was given the wrong number of operands. -/
structure ArityError where
  operator : LogicOp
  actual : Nat
  deriving DecidableEq, Repr

/-- How many operands an operator needs, in words. -/
def LogicOp.arityText : LogicOp → String
  | .not => "exactly one"
  | _ => "at least two"

/-- What is said about a wrong number of operands. -/
def ArityError.message (e : ArityError) : String :=
  s!"{e.operator.name} requires {e.operator.arityText} operand(s), got {e.actual}"

namespace Rule

/-! ## Logical nodes -/

/-- The node of a chain of operands. Whoever builds one makes sure that there are two at least. -/
def ofChain (op : Junction) : (operands : List Rule) → 2 ≤ operands.length → Rule
  | first :: second :: more, _ => .junction op first second more

theorem ofChain_eq {op : Junction} {operands more : List Rule} {first second : Rule}
    (h : operands = first :: second :: more) (hlength : 2 ≤ operands.length) :
    ofChain op operands hlength = .junction op first second more := by
  subst h
  rfl

theorem logical?_ofChain (op : Junction) :
    ∀ (operands : List Rule) (h : 2 ≤ operands.length),
      (ofChain op operands h).logical? = some (op.op, operands)
  | _ :: _ :: _, _ => rfl

/-- The operands of `left` and `right` under `op`. If `left` is a chain of `op` already, `right` is
put behind its operands. -/
def chained (op : Junction) (left right : Rule) : List Rule :=
  match left.logical? with
  | some (op', operands) => if op' = op.op then operands ++ [right] else [left, right]
  | none => [left, right]

theorem two_le_length_chained (op : Junction) (left right : Rule) :
    2 ≤ (chained op left right).length := by
  cases left with
  | negation | junction =>
    simp only [chained, logical?]
    split <;> simp
  | _ => exact Nat.le_refl 2

/-- `left` and `right` under `op`, as one chain. -/
def join (op : Junction) (left right : Rule) : Rule :=
  ofChain op (chained op left right) (two_le_length_chained op left right)

theorem join_eq {op : Junction} {left right first second : Rule} {more : List Rule}
    (h : chained op left right = first :: second :: more) :
    join op left right = .junction op first second more :=
  ofChain_eq h _

/-- The conjunction of two rules. -/
def and : Rule → Rule → Rule := join .and

/-- The disjunction of two rules. -/
def or : Rule → Rule → Rule := join .or

/-- The logical node with these operands, if the operator takes that many. -/
def ofOperands (op : LogicOp) (operands : List Rule) : Except ArityError Rule :=
  match op, operands with
  | .not, [operand] => .ok (.negation operand)
  | .and, first :: second :: more => .ok (.junction .and first second more)
  | .or, first :: second :: more => .ok (.junction .or first second more)
  | op, operands => .error ⟨op, operands.length⟩

/-- An aggregate's operand as a rule of its own. -/
def ofAggregateOperand : AggregateOperand → Rule
  | .field name => .field name
  | .wildcard => .wildcard

end Rule

/-! ## Terms -/

/-- What a comparison built by hand has on its left. -/
inductive Term
  | field (name : Field)
  | aggregate (call : Aggregate)
  deriving DecidableEq, Repr

namespace Term

/-- The number of all records. -/
def countAll : Term := .aggregate ⟨.count, .wildcard⟩

/-- The term as a rule. -/
def rule : Term → Rule
  | .field name => .field name
  | .aggregate call => .aggregate call

/-- The comparison of the term with a literal. -/
def compare (term : Term) (op : Comparator) (value : Literal) : Rule :=
  .comparison op term.rule (.literal value)

end Term

end Screening
