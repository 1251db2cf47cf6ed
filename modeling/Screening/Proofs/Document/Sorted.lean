import Screening.Proofs.Document.Height

/-!
# Documents with sorted keys

The document of a rule as a value is made of the documents of its parts: only the members of
comparisons and of logical nodes change places. It is as high as the encoded rule.
-/

namespace Screening

theorem sorted_tagged {τ : Type} [Named τ] (tag : τ) (body : Json) :
    (tagged tag body).sorted = tagged tag body.sorted := rfl

theorem sorted_encode_literal (value : Literal) : value.encode.sorted = value.encode := by
  cases value <;> rfl

theorem sorted_encodeRef (name : Field) : name.encodeRef.sorted = name.encodeRef := rfl

theorem sorted_encode_aggregate (call : Aggregate) : call.encode.sorted = call.encode := by
  obtain ⟨function, operand⟩ := call
  cases operand <;> rfl

namespace Rule

/-! ## Bodies -/

/-- The body of a comparison with sorted keys. -/
def sortedComparisonBody (op : Comparator) (left right : Json) : Json :=
  .object [part ComparisonPart.left left, part ComparisonPart.operator (encodeName op),
    part ComparisonPart.right right]

/-- The body of a logical node with sorted keys. -/
def sortedLogicalBody (op : LogicOp) (operands : List Json) : Json :=
  .object [part LogicalPart.operands (.array operands),
    part LogicalPart.operator (encodeName op)]

theorem sorted_comparisonBody (op : Comparator) (left right : Json) :
    (comparisonBody op left right).sorted =
      sortedComparisonBody op left.sorted right.sorted := rfl

theorem sorted_logicalBody (op : LogicOp) (operands : List Json) :
    (logicalBody op operands).sorted = sortedLogicalBody op (Json.sortedItems operands) := rfl

/-! ## Rules -/

theorem sortedItems_encodeAll (rules : List Rule) :
    Json.sortedItems (encodeAll rules) = rules.map document := by
  induction rules with
  | nil => rfl
  | cons rule rest ih => rw [encodeAll, Json.sortedItems, ih, List.map_cons, document]

@[simp] theorem document_literal (value : Literal) :
    (literal value).document = tagged RuleTag.literal value.encode := by
  rw [document, encode, sorted_tagged, sorted_encode_literal]

@[simp] theorem document_field (name : Field) :
    (field name).document = tagged RuleTag.field name.encodeRef := by
  rw [document, encode, sorted_tagged, sorted_encodeRef]

@[simp] theorem document_wildcard : wildcard.document = tagged RuleTag.wildcard (.object []) := by
  rw [document, encode, sorted_tagged]
  rfl

@[simp] theorem document_aggregate (call : Aggregate) :
    (aggregate call).document = tagged RuleTag.aggregate call.encode := by
  rw [document, encode, sorted_tagged, sorted_encode_aggregate]

@[simp] theorem document_comparison (op : Comparator) (left right : Rule) :
    (comparison op left right).document =
      tagged RuleTag.comparison (sortedComparisonBody op left.document right.document) := by
  rw [document, encode, sorted_tagged, sorted_comparisonBody]
  rfl

@[simp] theorem document_negation (operand : Rule) :
    (negation operand).document =
      tagged RuleTag.logical (sortedLogicalBody .not [operand.document]) := by
  rw [document, encode, sorted_tagged, sorted_logicalBody]
  rfl

@[simp] theorem document_junction (op : Junction) (first second : Rule) (more : List Rule) :
    (junction op first second more).document = tagged RuleTag.logical
      (sortedLogicalBody op.op ((first :: second :: more).map document)) := by
  rw [document, encode, sorted_tagged, sorted_logicalBody, ← encodeAll, ← encodeAll,
    sortedItems_encodeAll]

/-! ## Heights -/

theorem height_sortedComparisonBody (op : Comparator) (left right : Json) :
    (sortedComparisonBody op left right).height = 1 + max left.height right.height := by
  simp [sortedComparisonBody, part, encodeName, Json.height, Json.heightMembers]

theorem height_sortedLogicalBody (op : LogicOp) (operands : List Json) :
    (sortedLogicalBody op operands).height = 2 + Json.heightItems operands := by
  simp only [sortedLogicalBody, part, encodeName, Json.height, Json.heightMembers]
  omega

theorem heightItems_documents {rules : List Rule}
    (h : ∀ rule ∈ rules, rule.document.height = rule.documentHeight) :
    Json.heightItems (rules.map document) = documentHeightAll rules := by
  induction rules with
  | nil => rfl
  | cons rule rest ih =>
    obtain ⟨hrule, hrest⟩ := List.forall_mem_cons.1 h
    rw [List.map_cons, Json.heightItems, hrule, ih hrest, documentHeightAll]

theorem height_document (rule : Rule) : rule.document.height = rule.documentHeight := by
  induction rule with
  | literal value => simp [document_literal, height_tagged, height_encode_literal, documentHeight]
  | field name => rfl
  | wildcard => rfl
  | aggregate call => simp [document_aggregate, height_tagged, height_encode_aggregate, documentHeight]
  | comparison op left right ihl ihr =>
    rw [document_comparison, height_tagged, height_sortedComparisonBody, ihl, ihr, documentHeight]
    omega
  | negation operand ih =>
    rw [document_negation, height_tagged, height_sortedLogicalBody, Json.heightItems, ih,
      documentHeight]
    simp only [Json.heightItems]
    omega
  | junction op first second more ihf ihs ihm =>
    have ih : ∀ rule ∈ first :: second :: more, rule.document.height = rule.documentHeight :=
      List.forall_mem_cons.2 ⟨ihf, List.forall_mem_cons.2 ⟨ihs, ihm⟩⟩
    rw [document_junction, height_tagged, height_sortedLogicalBody, heightItems_documents ih,
      documentHeight]
    simp only [documentHeightAll]
    omega

end Rule

end Screening
