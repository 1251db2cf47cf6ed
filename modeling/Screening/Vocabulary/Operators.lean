import Screening.Vocabulary.Named

/-!
# Operators

Comparators, aggregate functions and logical operators, with their names in documents and
the symbols that stand for comparators in expressions.
-/

namespace Screening

/-! ## Comparators -/

/-- How two operands are compared. -/
inductive Comparator
  | equal
  | notEqual
  | greaterThan
  | greaterThanOrEqual
  | lessThan
  | lessThanOrEqual
  deriving DecidableEq, Repr

namespace Comparator

/-- The name of a comparator in documents. -/
def name : Comparator → String
  | equal => "EQUAL"
  | notEqual => "NOT_EQUAL"
  | greaterThan => "GREATER_THAN"
  | greaterThanOrEqual => "GREATER_THAN_OR_EQUAL"
  | lessThan => "LESS_THAN"
  | lessThanOrEqual => "LESS_THAN_OR_EQUAL"

/-- The symbol of a comparator in canonical text. -/
def symbol : Comparator → String
  | equal => "="
  | notEqual => "!="
  | greaterThan => ">"
  | greaterThanOrEqual => ">="
  | lessThan => "<"
  | lessThanOrEqual => "<="

instance : Named Comparator where
  all := [.equal, .notEqual, .greaterThan, .greaterThanOrEqual, .lessThan, .lessThanOrEqual]
  name := name
  mem_all := by intro a; cases a <;> decide
  name_injective := by intro a b; cases a <;> cases b <;> decide

/-- The comparator that a symbol stands for. Equality has the second symbol `==`. -/
def ofSymbol? (symbol : String) : Option Comparator :=
  if symbol = "==" then some equal
  else (Named.all (α := Comparator)).find? (·.symbol == symbol)

@[simp] theorem ofSymbol?_symbol (c : Comparator) : ofSymbol? c.symbol = some c := by
  cases c <;> decide

end Comparator

/-! ## Aggregate functions -/

/-- A function of the records in a pattern's window. -/
inductive AggregateFunction
  | count
  | sum
  | avg
  | min
  | max
  | countDistinct
  deriving DecidableEq, Repr

/-- The name of an aggregate function in expressions and documents. -/
def AggregateFunction.name : AggregateFunction → String
  | count => "COUNT"
  | sum => "SUM"
  | avg => "AVG"
  | min => "MIN"
  | max => "MAX"
  | countDistinct => "COUNT_DISTINCT"

instance : Named AggregateFunction where
  all := [.count, .sum, .avg, .min, .max, .countDistinct]
  name := AggregateFunction.name
  mem_all := by intro a; cases a <;> decide
  name_injective := by intro a b; cases a <;> cases b <;> decide

/-! ## Logical operators -/

/-- A logical operator. -/
inductive LogicOp
  | and
  | or
  | not
  deriving DecidableEq, Repr

/-- The name of a logical operator in expressions and documents. -/
def LogicOp.name : LogicOp → String
  | and => "AND"
  | or => "OR"
  | not => "NOT"

instance : Named LogicOp where
  all := [.and, .or, .not]
  name := LogicOp.name
  mem_all := by intro a; cases a <;> decide
  name_injective := by intro a b; cases a <;> cases b <;> decide

/-- A logical operator that joins two or more conditions. -/
inductive Junction
  | and
  | or
  deriving DecidableEq, Repr

/-- A junction as a logical operator. -/
def Junction.op : Junction → LogicOp
  | and => .and
  | or => .or

end Screening
