import Screening.Proofs.Grammar.Admitted
import Screening.Proofs.Grammar.Soundness
import Screening.Proofs.Rule.Equality

/-!
# Breaches seen from the tree

What a category has against tokens, looked up in the rule that they are read as. A glance at the
kinds of tokens finds the breach that the nodes of the tree show, and no other: every marked token
leaves its node somewhere in the tree, however deep, and no such node comes from anything else.
-/

namespace Screening

namespace Rule

/-- The first breach of what `category` asks of the nodes of a rule. -/
def breach? (category : Category) (rule : Rule) : Option Breach :=
  match category with
  | .threshold =>
    if rule.nodes.any isLogical then some .logicalOperatorsForbidden
    else if rule.nodes.any isAggregate then some .aggregatesForbidden
    else none
  | .pattern => none
  | .composite =>
    if !rule.nodes.any isLogical then some .logicalOperatorRequired
    else if rule.nodes.any isAggregate then some .aggregatesForbidden
    else none

/-- The nodes of the rule are what `category` asks for. A pattern rule may have any. -/
def Suits (rule : Rule) : Category → Prop
  | .threshold =>
    (∀ node ∈ rule.nodes, node.isLogical = false) ∧ ∀ node ∈ rule.nodes, node.isAggregate = false
  | .pattern => True
  | .composite =>
    (∃ node ∈ rule.nodes, node.isLogical = true) ∧ ∀ node ∈ rule.nodes, node.isAggregate = false

theorem breach?_eq_none_iff {category : Category} {rule : Rule} :
    rule.breach? category = none ↔ rule.Suits category := by
  have hsome (p : Rule → Bool) : rule.nodes.any p = true ↔ ∃ node ∈ rule.nodes, p node = true :=
    List.any_eq_true
  have hnone (p : Rule → Bool) :
      rule.nodes.any p = false ↔ ∀ node ∈ rule.nodes, p node = false := by
    simp
  cases category with
  | threshold =>
    rw [Suits, ← hnone isLogical, ← hnone isAggregate, breach?]
    cases rule.nodes.any isLogical <;> cases rule.nodes.any isAggregate <;> simp
  | pattern => simp [breach?, Suits]
  | composite =>
    rw [Suits, ← hsome isLogical, ← hnone isAggregate, breach?]
    cases rule.nodes.any isLogical <;> cases rule.nodes.any isAggregate <;> simp

end Rule

namespace Grammar

open Admission

/-- The breach that tokens show is the one that the rule read off them shows. -/
theorem Generates.breach?_eq {category d ts rule} (h : Generates category d ts rule) :
    breach? category ts = rule.breach? category := by
  obtain ⟨symbol, hd⟩ := h.derives
  have hlogic : has .logicOp ts = rule.nodes.any Rule.isLogical :=
    Bool.eq_iff_iff.2 (hd.has_logicOp.trans List.any_eq_true.symm)
  have haggregate : has .aggregateFunction ts = rule.nodes.any Rule.isAggregate :=
    Bool.eq_iff_iff.2 (hd.has_aggregateFunction.trans List.any_eq_true.symm)
  cases h with
  | threshold =>
    -- a threshold rule is a comparison, so its comparator is never missing
    simp [breach?, Rule.breach?, hlogic, haggregate, hd.has_comparisonOp]
  | @pattern _ _ _ _ op call v hcall hop hvalue =>
    have hshape : (Rule.comparison op (.aggregate call) (.literal v)).HasShape .pattern :=
      ⟨op, call, v, rfl⟩
    exact (Generates.pattern hcall hop hvalue).breach?_eq_none_iff.2 hshape
  | composite => simp only [breach?, Rule.breach?, hlogic, haggregate]

/-- For tokens that are read under a category, whether of a text or put together by hand, the look
at their kinds and the look at the nodes of the tree find the same breach, and none exactly if the
nodes are what the category asks for. -/
theorem breach?_of_read {s : Setting} {ts : List Token} {rule : Rule} (h : read s ts = .ok rule) :
    breach? s.category ts = rule.breach? s.category ∧
      (breach? s.category ts = none ↔ rule.Suits s.category) := by
  have heq := (generates_of_read h).breach?_eq
  exact ⟨heq, by rw [heq, Rule.breach?_eq_none_iff]⟩

/-- The tokens of a negation in a group, compared with a number. -/
def comparedNegation : List Token :=
  [⟨.lparen, "(", 0⟩, ⟨.logicOp, "NOT", 1⟩, ⟨.field, "AMOUNT", 5⟩, ⟨.comparisonOp, ">", 12⟩,
    ⟨.number, "1", 14⟩, ⟨.rparen, ")", 15⟩, ⟨.comparisonOp, "=", 17⟩, ⟨.number, "1", 19⟩]

/-- A logical operator inside a group is found in the tokens and in the tree of a threshold rule. -/
theorem breach?_of_read_comparedNegation :
    ∃ rule, read ⟨.threshold, 64, 20⟩ comparedNegation = .ok rule ∧
      breach? .threshold comparedNegation = rule.breach? .threshold ∧
      rule.breach? .threshold = some .logicalOperatorsForbidden ∧ ¬ rule.Suits .threshold := by
  have h : read ⟨.threshold, 64, 20⟩ comparedNegation =
      .ok (.comparison .equal
        (.negation (.comparison .greaterThan (.field .amount) (.literal (.int32 1))))
        (.literal (.int32 1))) := by
    decide +kernel
  obtain ⟨heq, hsuits⟩ := breach?_of_read h
  have hbreach : breach? .threshold comparedNegation = some .logicalOperatorsForbidden := by decide
  refine ⟨_, h, heq, heq ▸ hbreach, fun hs => ?_⟩
  rw [hsuits.2 hs] at hbreach
  cases hbreach

end Grammar

end Screening
