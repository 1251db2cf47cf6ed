import Screening.Proofs.Rule.Nodes
import Screening.Rule.Text

/-!
# Nesting of the canonical text

How many groups and negations enclose one another in the text of a rule. The parentheses of an
aggregate are no group.
-/

namespace Screening.Rule

mutual

/-- The deepest stack of groups and negations in the canonical text. An operand that is put in
parentheses adds one to what stands inside, and so does a negation. -/
def nesting : Rule → Nat
  | .comparison _ left right =>
    max (left.nesting + left.isCondition.toNat) (right.nesting + right.isCondition.toNat)
  | .negation operand => operand.nesting + (operand.grouped .not).toNat + 1
  | .junction op first second more =>
    max (max (first.nesting + (first.grouped op.op).toNat)
      (second.nesting + (second.grouped op.op).toNat)) (nestingMore op more)
  | _ => 0

/-- The deepest stack in the text of the operands that follow. -/
def nestingMore (op : Junction) : List Rule → Nat
  | [] => 0
  | rule :: rest => max (rule.nesting + (rule.grouped op.op).toNat) (nestingMore op rest)

end

theorem nestingMore_le_iff {op : Junction} {rules : List Rule} {d : Nat} :
    nestingMore op rules ≤ d ↔
      ∀ rule ∈ rules, rule.nesting + (rule.grouped op.op).toNat ≤ d := by
  induction rules with
  | nil => simp [nestingMore]
  | cons rule rest ih => simp only [nestingMore, Nat.max_le, List.forall_mem_cons, ih]

/-- A junction fits into what all of its operands fit into. -/
theorem nesting_junction_le_iff {op first second more} {d : Nat} :
    (junction op first second more).nesting ≤ d ↔
      ∀ rule ∈ first :: second :: more, rule.nesting + (rule.grouped op.op).toNat ≤ d := by
  simp only [nesting, Nat.max_le, nestingMore_le_iff, List.forall_mem_cons, and_assoc]

end Screening.Rule
