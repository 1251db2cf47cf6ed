import Screening.Document.Encode
import Screening.Proofs.Json.Tree
import Screening.Proofs.Rule.Nodes

/-!
# Heights of documents

How many arrays and objects enclose one another in the document of a rule, be its keys in order of
declaration or sorted. The height of the document grows with the depth of the rule, at two to three
levels for each level of the rule.
-/

namespace Screening

namespace Rule

mutual

/-- How many arrays and objects enclose one another in the document of the rule. Every rule takes
two, for its tag and its body; a logical node takes a third for the list of its operands, and an
aggregate two more for its own operand. -/
def documentHeight : Rule → Nat
  | .aggregate _ => 4
  | .comparison _ left right => 2 + max left.documentHeight right.documentHeight
  | .negation operand => 3 + operand.documentHeight
  | .junction _ first second more =>
    3 + max (max first.documentHeight second.documentHeight) (documentHeightAll more)
  | _ => 2

/-- The height of the highest document of a list. -/
def documentHeightAll : List Rule → Nat
  | [] => 0
  | rule :: rest => max rule.documentHeight (documentHeightAll rest)

end

theorem documentHeightAll_le_iff {rules : List Rule} {n : Nat} :
    documentHeightAll rules ≤ n ↔ ∀ rule ∈ rules, rule.documentHeight ≤ n := by
  induction rules with
  | nil => simp [documentHeightAll]
  | cons rule rest ih => simp only [documentHeightAll, Nat.max_le, List.forall_mem_cons, ih]

/-- A logical node takes three levels more than its operands. -/
theorem documentHeight_of_logical? {rule : Rule} {op operands}
    (h : rule.logical? = some (op, operands)) :
    rule.documentHeight = 3 + documentHeightAll operands := by
  cases rule with
  | negation operand =>
    cases h
    simp [documentHeight, documentHeightAll]
  | junction op first second more =>
    cases h
    simp [documentHeight, documentHeightAll, Nat.max_assoc]
  | _ => cases h

/-! ## Depth -/

theorem depthAll_le_iff {rules : List Rule} {n : Nat} :
    depthAll rules ≤ n ↔ ∀ rule ∈ rules, rule.depth ≤ n := by
  induction rules with
  | nil => simp [depthAll]
  | cons rule rest ih => simp only [depthAll, Nat.max_le, List.forall_mem_cons, ih]

/-- Three levels of the document are enough for one level of the rule. -/
theorem documentHeight_lt (rule : Rule) : rule.documentHeight < 3 * rule.depth := by
  induction rule with
  | comparison op left right ihl ihr =>
    simp only [documentHeight, depth]
    omega
  | negation operand ih =>
    simp only [documentHeight, depth]
    omega
  | junction op first second more ihf ihs ihm =>
    -- an empty list has no document, so one less than nothing has to be nothing here
    have hmore : documentHeightAll more ≤ 3 * depthAll more - 1 := by
      refine documentHeightAll_le_iff.2 fun rule hr => ?_
      have := depthAll_le_iff.1 (Nat.le_refl (depthAll more)) rule hr
      have := ihm rule hr
      omega
    simp only [documentHeight, depth]
    omega
  | _ => simp [documentHeight, depth]

/-- Each level of the rule takes two levels of the document at least. -/
theorem depth_le (rule : Rule) : 2 * rule.depth ≤ rule.documentHeight := by
  induction rule with
  | comparison op left right ihl ihr =>
    simp only [documentHeight, depth]
    omega
  | negation operand ih =>
    simp only [documentHeight, depth]
    omega
  | junction op first second more ihf ihs ihm =>
    have hmore : 2 * depthAll more ≤ documentHeightAll more := by
      have hle : depthAll more ≤ documentHeightAll more / 2 := by
        refine depthAll_le_iff.2 fun rule hr => ?_
        have := documentHeightAll_le_iff.1 (Nat.le_refl (documentHeightAll more)) rule hr
        have := ihm rule hr
        omega
      omega
    simp only [documentHeight, depth]
    omega
  | _ => simp [documentHeight, depth]

/-! ## Encoded rules -/

theorem height_tagged {τ : Type} [Named τ] (tag : τ) (body : Json) :
    (tagged tag body).height = 1 + body.height := by
  simp [tagged, Json.height, Json.heightMembers]

theorem height_encodeRef (name : Field) : name.encodeRef.height = 1 := by
  simp [Field.encodeRef, part, encodeName, Json.height, Json.heightMembers]

theorem height_encode_literal (value : Literal) : value.encode.height = 1 := by
  cases value <;> simp [Literal.encode, height_tagged, Json.height]

theorem height_encode_aggregate (call : Aggregate) : call.encode.height = 3 := by
  obtain ⟨function, operand⟩ := call
  cases operand <;>
    simp [Aggregate.encode, AggregateOperand.encode, part, encodeName, height_tagged,
      height_encodeRef, Json.height, Json.heightMembers]

theorem height_comparisonBody (op : Comparator) (left right : Json) :
    (comparisonBody op left right).height = 1 + max left.height right.height := by
  simp [comparisonBody, part, encodeName, Json.height, Json.heightMembers]

theorem height_logicalBody (op : LogicOp) (operands : List Json) :
    (logicalBody op operands).height = 2 + Json.heightItems operands := by
  simp only [logicalBody, part, encodeName, Json.height, Json.heightMembers]
  omega

theorem encodeAll_eq (rules : List Rule) : encodeAll rules = rules.map encode := by
  induction rules with
  | nil => rfl
  | cons rule rest ih => rw [encodeAll, ih, List.map_cons]

theorem heightItems_encodeAll {rules : List Rule}
    (h : ∀ rule ∈ rules, rule.encode.height = rule.documentHeight) :
    Json.heightItems (encodeAll rules) = documentHeightAll rules := by
  induction rules with
  | nil => rfl
  | cons rule rest ih =>
    obtain ⟨hrule, hrest⟩ := List.forall_mem_cons.1 h
    rw [encodeAll, Json.heightItems, hrule, ih hrest, documentHeightAll]

theorem height_encode (rule : Rule) : rule.encode.height = rule.documentHeight := by
  induction rule with
  | literal value => simp [encode, height_tagged, height_encode_literal, documentHeight]
  | field name => simp [encode, height_tagged, height_encodeRef, documentHeight]
  | wildcard => rfl
  | aggregate call => simp [encode, height_tagged, height_encode_aggregate, documentHeight]
  | comparison op left right ihl ihr =>
    rw [encode, height_tagged, height_comparisonBody, ihl, ihr, documentHeight]
    omega
  | negation operand ih =>
    rw [encode, height_tagged, height_logicalBody, Json.heightItems, ih, documentHeight]
    simp only [Json.heightItems]
    omega
  | junction op first second more ihf ihs ihm =>
    rw [encode, height_tagged, height_logicalBody, Json.heightItems, Json.heightItems, ihf, ihs,
      heightItems_encodeAll ihm, documentHeight]
    omega

end Rule

end Screening
