import Screening.Document.Decode
import Screening.Proofs.Document.Shape
import Screening.Proofs.Document.Sorted

/-!
# Decoding encoded rules

A rule is decoded from what it was encoded as, whether the members of its document stand in order of
declaration or are sorted, if there is room for the height of the document; otherwise the document
is refused.
-/

namespace Screening

namespace Decode

open Json (Draft)

variable {source : Source}

/-! ## Rules inside rules -/

theorem ruleWith_congr {inner inner' : Decoder Rule} {room : Nat}
    (h : ∀ r < room, inner r = inner' r) :
    ruleWith source inner room = ruleWith source inner' room := by
  refine variant_congr fun tag r hr => ?_
  have hlt : ∀ s < r, inner s = inner' s := fun s hs => h s (Nat.lt_trans hs hr)
  cases tag with
  | comparison =>
    refine record_congr fun s hs => ?_
    funext parts f value
    cases f <;> simp only [hlt s hs]
  | logical =>
    refine record_congr fun s hs => ?_
    funext parts f value
    cases f with
    | operator => rfl
    | operands => simp only [sequence_congr fun t ht => hlt t (Nat.lt_trans ht hs)]
  | _ => rfl

/-- Levels that there is no room for make no difference. -/
theorem ruleAt_eq {levels room : Nat} (h : room < levels) :
    ruleAt source levels room = rule source room := by
  induction room using Nat.strongRecOn generalizing levels with
  | ind room ih =>
    cases levels with
    | zero => omega
    | succ levels =>
      refine ruleWith_congr fun r hr => ?_
      rw [ih r hr (by omega), ih r hr hr]

/-- The rules inside a rule are decoded like the rule itself. -/
theorem rule_eq : rule source = ruleWith source (rule source) := by
  funext room
  exact ruleWith_congr fun r hr => ruleAt_eq hr

/-! ## Parts -/

theorem int32_toInt (v : Int32) : int32 (.integer v.toInt) = .ok v := by
  simp [int32, Literal.fits32_int32]

theorem int64_toInt (v : Int64) : int64 (.integer v.toInt) = .ok v := by
  simp [int64, Literal.fits64_int64]

theorem decodes_literal (value : Literal) :
    Decodes (literal source) value.encode.draft 1 value := by
  cases value with
  | int32 v =>
    refine Decodes.variant LiteralTag.int32 (decodes_zero.2 fun _ => ?_) rfl
    exact congrArg (Except.map Literal.int32) (int32_toInt v)
  | int64 v =>
    refine Decodes.variant LiteralTag.int64 (decodes_zero.2 fun _ => ?_) rfl
    exact congrArg (Except.map Literal.int64) (int64_toInt v)
  | float x => exact Decodes.variant LiteralTag.float (decodes_zero.2 fun _ => rfl) rfl
  | string s => exact Decodes.variant LiteralTag.string (decodes_zero.2 fun _ => rfl) rfl
  | bool b => exact Decodes.variant LiteralTag.bool (decodes_zero.2 fun _ => rfl) rfl

theorem decodes_fieldRef (name : Field) :
    Decodes (fieldRef source) name.encodeRef.draft 1 name :=
  Decodes.record [(FieldPart.field, _)] (some name)
    (.cons _ ((decodes_name name).map some) (.nil _)) (by simp) rfl rfl

theorem decodes_wildcardBody : Decodes (wildcardBody source) (.object [] true) 1 () := by
  intro room
  cases room <;> rfl

theorem decodes_aggregateOperand (operand : AggregateOperand) :
    Decodes (aggregateOperand source) operand.encode.draft 2 operand := by
  cases operand with
  | field name => exact Decodes.variant OperandTag.field ((decodes_fieldRef name).map _) rfl
  | wildcard => exact Decodes.variant OperandTag.wildcard (decodes_wildcardBody.map _) rfl

theorem decodes_aggregate (call : Aggregate) :
    Decodes (aggregate source) call.encode.draft 3 call :=
  Decodes.record [(AggregatePart.function, _), (.operand, _)]
    ⟨some call.function, some call.operand⟩
    (.cons _ ((decodes_name call.function).map _)
      (.cons _ ((decodes_aggregateOperand call.operand).map _) (.nil _))) (by simp) rfl rfl

/-! ## Bodies -/

section

variable {inner : Decoder Rule}

theorem decodes_comparisonBody {op : Comparator} {left right : Rule} {l r : Json}
    {heightL heightR : Nat} (hl : Decodes inner l.draft heightL left)
    (hr : Decodes inner r.draft heightR right) :
    Decodes (comparison source inner) (Rule.comparisonBody op l r).draft
      (1 + max heightL heightR) (.comparison op left right) :=
  Decodes.record [(ComparisonPart.operator, _), (.left, _), (.right, _)]
    ⟨some op, some left, some right⟩
    (.cons _ ((decodes_name op).map _) (.cons _ (hl.map _) (.cons _ (hr.map _) (.nil _))))
    (by simp) rfl (by omega)

theorem decodes_sortedComparisonBody {op : Comparator} {left right : Rule} {l r : Json}
    {heightL heightR : Nat} (hl : Decodes inner l.draft heightL left)
    (hr : Decodes inner r.draft heightR right) :
    Decodes (comparison source inner) (Rule.sortedComparisonBody op l r).draft
      (1 + max heightL heightR) (.comparison op left right) :=
  Decodes.record [(ComparisonPart.left, _), (.operator, _), (.right, _)]
    ⟨some op, some left, some right⟩
    (.cons _ (hl.map _) (.cons _ ((decodes_name op).map _) (.cons _ (hr.map _) (.nil _))))
    (by simp) rfl (by omega)

theorem draftItems_eq (items : List Json) : Json.draftItems items = items.map Json.draft := by
  induction items with
  | nil => rfl
  | cons item rest ih => rw [Json.draftItems, ih, List.map_cons]

theorem decodes_operands (encoded : Rule → Json) {rules : List Rule}
    (h : ∀ rule ∈ rules, Decodes inner (encoded rule).draft rule.documentHeight rule) :
    Decodes (sequence inner) (Json.array (rules.map encoded)).draft
      (Rule.documentHeightAll rules + 1) rules := by
  rw [Json.draft, draftItems_eq, List.map_map]
  exact Decodes.sequence (fun n => Rule.documentHeightAll_le_iff) h

theorem decodes_logicalBody {op : LogicOp} {operands : List Rule} {rule : Rule} {items : List Json}
    {height : Nat} (hitems : Decodes (sequence inner) (Json.array items).draft height operands)
    (hrule : Rule.ofOperands op operands = .ok rule) :
    Decodes (logical source inner) (Rule.logicalBody op items).draft (height + 1) rule :=
  Decodes.record [(LogicalPart.operator, _), (.operands, _)] ⟨some op, some operands⟩
    (.cons _ ((decodes_name op).map _) (.cons _ (hitems.map _) (.nil _)))
    (by simp) (congrArg (Except.mapError DecodeFault.arity) hrule) (by omega)

theorem decodes_sortedLogicalBody {op : LogicOp} {operands : List Rule} {rule : Rule}
    {items : List Json} {height : Nat}
    (hitems : Decodes (sequence inner) (Json.array items).draft height operands)
    (hrule : Rule.ofOperands op operands = .ok rule) :
    Decodes (logical source inner) (Rule.sortedLogicalBody op items).draft (height + 1) rule :=
  Decodes.record [(LogicalPart.operands, _), (.operator, _)] ⟨some op, some operands⟩
    (.cons _ (hitems.map _) (.cons _ ((decodes_name op).map _) (.nil _)))
    (by simp) (congrArg (Except.mapError DecodeFault.arity) hrule) (by omega)

end

/-! ## Rules -/

/-- A rule is decoded from its document with members in order of declaration. -/
theorem decodes_encode (rule : Rule) :
    Decodes (Decode.rule source) rule.encode.draft rule.documentHeight rule := by
  induction rule with
  | literal value =>
    rw [rule_eq]
    exact Decodes.variant RuleTag.literal ((decodes_literal value).map _) rfl
  | field name =>
    rw [rule_eq]
    exact Decodes.variant RuleTag.field ((decodes_fieldRef name).map _) rfl
  | wildcard =>
    rw [rule_eq]
    exact Decodes.variant RuleTag.wildcard (decodes_wildcardBody.map _) rfl
  | aggregate call =>
    rw [rule_eq]
    exact Decodes.variant RuleTag.aggregate ((decodes_aggregate call).map _) rfl
  | comparison op left right ihl ihr =>
    rw [rule_eq]
    refine Decodes.variant RuleTag.comparison (decodes_comparisonBody ihl ihr) ?_
    simp only [Rule.documentHeight]
    omega
  | negation operand ih =>
    have hitems := decodes_operands Rule.encode (List.forall_mem_singleton.2 ih)
    rw [rule_eq]
    refine Decodes.variant RuleTag.logical (decodes_logicalBody hitems rfl) ?_
    simp only [Rule.documentHeight, Rule.documentHeightAll]
    omega
  | junction op first second more ihf ihs ihm =>
    have hitems := decodes_operands Rule.encode
      (List.forall_mem_cons.2 ⟨ihf, List.forall_mem_cons.2 ⟨ihs, ihm⟩⟩)
    rw [← Rule.encodeAll_eq] at hitems
    rw [rule_eq]
    refine Decodes.variant RuleTag.logical (decodes_logicalBody hitems (by cases op <;> rfl)) ?_
    simp only [Rule.documentHeight, Rule.documentHeightAll]
    omega

/-- A rule is decoded from its document with sorted members. -/
theorem decodes_document (rule : Rule) :
    Decodes (Decode.rule source) rule.document.draft rule.documentHeight rule := by
  induction rule with
  | literal value =>
    rw [Rule.document_literal]
    exact decodes_encode (.literal value)
  | field name => exact decodes_encode (.field name)
  | wildcard => exact decodes_encode .wildcard
  | aggregate call =>
    rw [Rule.document_aggregate]
    exact decodes_encode (.aggregate call)
  | comparison op left right ihl ihr =>
    rw [Rule.document_comparison, rule_eq]
    refine Decodes.variant RuleTag.comparison (decodes_sortedComparisonBody ihl ihr) ?_
    simp only [Rule.documentHeight]
    omega
  | negation operand ih =>
    have hitems := decodes_operands Rule.document (List.forall_mem_singleton.2 ih)
    rw [Rule.document_negation, rule_eq]
    refine Decodes.variant RuleTag.logical (decodes_sortedLogicalBody hitems rfl) ?_
    simp only [Rule.documentHeight, Rule.documentHeightAll]
    omega
  | junction op first second more ihf ihs ihm =>
    have hitems := decodes_operands Rule.document
      (List.forall_mem_cons.2 ⟨ihf, List.forall_mem_cons.2 ⟨ihs, ihm⟩⟩)
    rw [Rule.document_junction, rule_eq]
    refine Decodes.variant RuleTag.logical
      (decodes_sortedLogicalBody hitems (by cases op <;> rfl)) ?_
    simp only [Rule.documentHeight, Rule.documentHeightAll]
    omega

end Decode

end Screening
