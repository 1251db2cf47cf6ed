import Screening.Proofs.Rule.Literal
import Screening.Rule.Basic
import Screening.Token.Basic
import Screening.Vocabulary.Category

/-!
# Nodes and shapes

What holds of a rule because it holds of its nodes: well-formedness, which every rule that was
read has, and the shape that a category asks for.
-/

namespace Screening

namespace Rule

/-! ## Induction -/

/-- Induction on rules. A junction may assume the claim of every operand, those after the second
among them. -/
@[elab_as_elim, induction_eliminator]
theorem induct {P : Rule → Prop} (literal : ∀ value, P (.literal value))
    (field : ∀ name, P (.field name)) (wildcard : P .wildcard)
    (aggregate : ∀ call, P (.aggregate call))
    (comparison : ∀ op left right, P left → P right → P (.comparison op left right))
    (negation : ∀ operand, P operand → P (.negation operand))
    (junction : ∀ op first second more, P first → P second → (∀ rule ∈ more, P rule) →
      P (.junction op first second more)) (rule : Rule) : P rule :=
  Rule.rec (motive_1 := P) (motive_2 := fun rules => ∀ rule ∈ rules, P rule)
    literal field wildcard aggregate comparison negation junction
    (fun _ h => absurd h List.not_mem_nil)
    (fun _ _ ih ihs => List.forall_mem_cons.2 ⟨ih, ihs⟩) rule

/-! ## Nodes -/

@[simp] theorem op_inj (a b : Junction) : a.op = b.op ↔ a = b := by
  cases a <;> cases b <;> decide

theorem op_ne_not (a : Junction) : a.op ≠ .not := by
  cases a <;> decide

theorem nodesAll_eq (rules : List Rule) : nodesAll rules = rules.flatMap nodes := by
  induction rules with
  | nil => rfl
  | cons rule rest ih => rw [nodesAll, ih, List.flatMap_cons]

theorem mem_nodes_comparison {op left right node} :
    node ∈ (comparison op left right).nodes ↔
      node = .comparison op left right ∨ node ∈ left.nodes ∨ node ∈ right.nodes := by
  simp [nodes]

theorem mem_nodes_negation {operand node} :
    node ∈ (negation operand).nodes ↔ node = .negation operand ∨ node ∈ operand.nodes := by
  simp [nodes]

theorem mem_nodes_junction {op first second more node} :
    node ∈ (junction op first second more).nodes ↔
      node = .junction op first second more ∨
        ∃ operand ∈ first :: second :: more, node ∈ operand.nodes := by
  simp [nodes, nodesAll_eq]

/-- The nodes of a logical node besides itself are those of its operands. -/
theorem mem_nodes_of_logical? {rule node : Rule} {op operands}
    (h : rule.logical? = some (op, operands)) :
    node ∈ rule.nodes ↔ node = rule ∨ ∃ operand ∈ operands, node ∈ operand.nodes := by
  cases rule with
  | negation operand =>
    cases h
    simp [mem_nodes_negation]
  | junction op first second more =>
    cases h
    exact mem_nodes_junction
  | _ => cases h

/-- A rule is a node of its own. -/
theorem mem_nodes_self (rule : Rule) : rule ∈ rule.nodes := by
  cases rule <;> simp [nodes]

/-! ## Kinds of nodes -/

/-- An aggregate. -/
def isAggregate : Rule → Bool
  | .aggregate _ => true
  | _ => false

/-- A node of a logical operator. -/
def isLogical : Rule → Bool
  | .negation _ | .junction .. => true
  | _ => false

/-- The kind of the token that a node is written with besides its operands. -/
def mark : Rule → Option TokenKind
  | .comparison .. => some .comparisonOp
  | .negation _ | .junction .. => some .logicOp
  | .aggregate _ => some .aggregateFunction
  | _ => none

theorem mark_eq_logicOp {rule : Rule} : rule.mark = some .logicOp ↔ rule.isLogical = true := by
  cases rule <;> simp [mark, isLogical]

theorem mark_eq_aggregateFunction {rule : Rule} :
    rule.mark = some .aggregateFunction ↔ rule.isAggregate = true := by
  cases rule <;> simp [mark, isAggregate]

end Rule

/-- How many operands a logical operator takes. -/
def LogicOp.Takes (op : LogicOp) (count : Nat) : Prop := if op = .not then count = 1 else 2 ≤ count

namespace Rule

/-! ## Well-formed rules -/

/-- What is right about a rule whatever its category: a star stands in aggregates only, a logical
operator has as many operands as it takes and all of them are conditions, and literals are
canonical. -/
structure WellFormed (rule : Rule) : Prop where
  wildcard : .wildcard ∉ rule.nodes
  arity : ∀ node ∈ rule.nodes, ∀ op operands, node.logical? = some (op, operands) →
    op.Takes operands.length
  operands : ∀ node ∈ rule.nodes, ∀ op operands, node.logical? = some (op, operands) →
    ∀ operand ∈ operands, operand.isCondition = true
  literals : ∀ value, .literal value ∈ rule.nodes → value.Canonical

/-- No node can have another number of operands than its operator takes. -/
theorem takes_of_logical? {rule : Rule} {op operands} (h : rule.logical? = some (op, operands)) :
    op.Takes operands.length := by
  cases rule with
  | negation operand =>
    cases h
    rfl
  | junction op first second more =>
    cases h
    cases op <;> simp [LogicOp.Takes, Junction.op]
  | _ => cases h

/-- Parts of a well-formed rule are well-formed. -/
theorem WellFormed.of_subset {rule part : Rule} (h : rule.WellFormed)
    (hsub : part.nodes ⊆ rule.nodes) : part.WellFormed where
  wildcard hw := h.wildcard (hsub hw)
  arity node hn := h.arity node (hsub hn)
  operands node hn := h.operands node (hsub hn)
  literals value hv := h.literals value (hsub hv)

/-- A well-formed rule whose strings can all be put in quotes. -/
structure Printable (rule : Rule) : Prop extends WellFormed rule where
  quotable : ∀ value, .literal value ∈ rule.nodes → value.Quotable

theorem Printable.of_subset {rule part : Rule} (h : rule.Printable)
    (hsub : part.nodes ⊆ rule.nodes) : part.Printable where
  toWellFormed := h.toWellFormed.of_subset hsub
  quotable value hv := h.quotable value (hsub hv)

theorem printable_field (name : Field) : (field name).Printable where
  wildcard hw := by cases List.mem_singleton.1 hw
  arity _ _ _ _ hl := takes_of_logical? hl
  operands node hn op operands hl := by
    obtain rfl := List.mem_singleton.1 hn
    cases hl
  literals value hv := by cases List.mem_singleton.1 hv
  quotable value hv := by cases List.mem_singleton.1 hv

theorem printable_literal {value : Literal} (hc : value.Canonical) (hq : value.Quotable) :
    (literal value).Printable where
  wildcard hw := by cases List.mem_singleton.1 hw
  arity _ _ _ _ hl := takes_of_logical? hl
  operands node hn op operands hl := by
    obtain rfl := List.mem_singleton.1 hn
    cases hl
  literals other hv := by
    cases List.mem_singleton.1 hv
    exact hc
  quotable other hv := by
    cases List.mem_singleton.1 hv
    exact hq

theorem Printable.comparison {op : Comparator} {left right : Rule} (hl : left.Printable)
    (hr : right.Printable) : (comparison op left right).Printable where
  wildcard hw := by
    rcases mem_nodes_comparison.1 hw with h | h | h
    · cases h
    · exact hl.wildcard h
    · exact hr.wildcard h
  arity _ _ _ _ h := takes_of_logical? h
  operands node hn op operands h := by
    rcases mem_nodes_comparison.1 hn with rfl | hn | hn
    · cases h
    · exact hl.operands node hn op operands h
    · exact hr.operands node hn op operands h
  literals value hv := by
    rcases mem_nodes_comparison.1 hv with h | h | h
    · cases h
    · exact hl.literals value h
    · exact hr.literals value h
  quotable value hv := by
    rcases mem_nodes_comparison.1 hv with h | h | h
    · cases h
    · exact hl.quotable value h
    · exact hr.quotable value h

theorem Printable.junction {op : Junction} {first second : Rule} {more : List Rule}
    (h : ∀ operand ∈ first :: second :: more, operand.Printable)
    (hc : ∀ operand ∈ first :: second :: more, operand.isCondition = true) :
    (junction op first second more).Printable where
  wildcard hw := by
    rcases mem_nodes_junction.1 hw with hw | ⟨operand, ho, hw⟩
    · cases hw
    · exact (h operand ho).wildcard hw
  arity _ _ _ _ hl := takes_of_logical? hl
  operands node hn op operands hl := by
    rcases mem_nodes_junction.1 hn with rfl | ⟨operand, ho, hn⟩
    · cases hl
      exact hc
    · exact (h operand ho).operands node hn op operands hl
  literals value hv := by
    rcases mem_nodes_junction.1 hv with hv | ⟨operand, ho, hv⟩
    · cases hv
    · exact (h operand ho).literals value hv
  quotable value hv := by
    rcases mem_nodes_junction.1 hv with hv | ⟨operand, ho, hv⟩
    · cases hv
    · exact (h operand ho).quotable value hv

/-! ## Shapes -/

/-- The shape that a category promises. A threshold rule is one comparison, a pattern rule
compares an aggregate with a literal, and a composite rule is a condition with a logical operator
somewhere in it. Only pattern rules speak of aggregates. -/
def HasShape (rule : Rule) : Category → Prop
  | .threshold => (∃ op left right, rule = .comparison op left right) ∧
      (∀ node ∈ rule.nodes, node.isLogical = false) ∧
      ∀ node ∈ rule.nodes, node.isAggregate = false
  | .pattern => ∃ op call value, rule = .comparison op (.aggregate call) (.literal value)
  | .composite => rule.isCondition = true ∧ (∃ node ∈ rule.nodes, node.isLogical = true) ∧
      ∀ node ∈ rule.nodes, node.isAggregate = false

end Rule

end Screening
