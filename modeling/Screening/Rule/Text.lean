import Screening.Rule.Basic

/-!
# Canonical text

The expression that stands for a rule. Parentheses are written where the tree would be read
otherwise, and nowhere else.
-/

namespace Screening

/-- An aggregate as it is written in an expression. -/
def Aggregate.text (a : Aggregate) : String :=
  match a.operand with
  | .field name => a.function.name ++ "(" ++ name.name ++ ")"
  | .wildcard => a.function.name ++ "(*)"

namespace Rule

/-- Whether a rule is put in parentheses as an operand of `op`. Under a negation and under a
conjunction every junction is; under a disjunction only another disjunction. -/
def grouped (op : LogicOp) : Rule → Bool
  | .junction inner .. => op != .or || inner == .or
  | _ => false

/-- `text`, in parentheses if `group`. -/
def parenthesize (group : Bool) (text : String) : String :=
  if group then "(" ++ text ++ ")" else text

mutual

/-- The canonical text of a rule. -/
def text : Rule → String
  | .literal value => value.text
  | .field name => name.name
  | .wildcard => "*"
  | .aggregate call => call.text
  | .comparison op left right =>
    parenthesize left.isCondition left.text ++ " " ++ op.symbol ++ " " ++
      parenthesize right.isCondition right.text
  | .negation operand => "NOT " ++ parenthesize (operand.grouped .not) operand.text
  | .junction op first second more =>
    parenthesize (first.grouped op.op) first.text ++
      (" " ++ op.op.name ++ " " ++ parenthesize (second.grouped op.op) second.text) ++
      textMore op more

/-- The canonical text of the operands that follow, each after the operator. -/
def textMore (op : Junction) : List Rule → String
  | [] => ""
  | rule :: rest =>
    " " ++ op.op.name ++ " " ++ parenthesize (rule.grouped op.op) rule.text ++ textMore op rest

end

/-! ## Labels -/

/-- The label of a node in a listing of the tree. -/
def label : Rule → String
  | .literal (.int32 _) => "int32"
  | .literal (.int64 _) => "int64"
  | .literal (.float _) => "float"
  | .literal (.string _) => "string"
  | .literal (.bool _) => "bool"
  | .field name => name.name
  | .wildcard => "*"
  | .aggregate call => call.text
  | .comparison op .. => op.name
  | .negation _ => "NOT/1"
  | .junction op _ _ more => s!"{op.op.name}/{more.length + 2}"

/-- A short description of a rule, for messages. -/
def describe : Rule → String
  | .literal value => "literal " ++ value.text
  | .field name => "field " ++ name.name
  | .wildcard => "'*'"
  | .aggregate call => "aggregate " ++ call.text
  | .comparison op left right => "comparison " ++ (comparison op left right).text
  | .negation _ => "NOT expression"
  | .junction op .. => op.op.name ++ " expression"

end Rule

end Screening
