import Screening.Proofs.Document.Height

/-!
# Floats in rules

A rule with each of its floats replaced by another number. Its document is the one before with the
floats replaced, and is as high. The rule is equal to the one before exactly if no float has changed.
-/

namespace Screening

open Number

/-- The literal with what `f` makes of its float, if it is one. -/
def Literal.mapFloat (f : Binary64 → Binary64) : Literal → Literal
  | .float x => .float (f x)
  | value => value

namespace Rule

mutual

/-- The rule with each float replaced by what `f` makes of it. -/
def mapFloats (f : Binary64 → Binary64) : Rule → Rule
  | .literal value => .literal (value.mapFloat f)
  | .comparison op left right => .comparison op (left.mapFloats f) (right.mapFloats f)
  | .negation operand => .negation (operand.mapFloats f)
  | .junction op first second more =>
    .junction op (first.mapFloats f) (second.mapFloats f) (mapFloatsAll f more)
  | rule => rule

/-- All rules of a list with their floats replaced. -/
def mapFloatsAll (f : Binary64 → Binary64) : List Rule → List Rule
  | [] => []
  | rule :: rest => rule.mapFloats f :: mapFloatsAll f rest

end

variable {f : Binary64 → Binary64}

theorem mapFloatsAll_eq (rules : List Rule) : mapFloatsAll f rules = rules.map (mapFloats f) := by
  induction rules with
  | nil => rfl
  | cons rule rest ih => rw [mapFloatsAll, ih, List.map_cons]

/-! ## Equality -/

/-- That something holds of all floats of a comparison is that it does of those of its sides. -/
theorem forall_float_comparison {P : Binary64 → Prop} {op left right} :
    (∀ x, .literal (.float x) ∈ (comparison op left right).nodes → P x) ↔
      (∀ x, .literal (.float x) ∈ left.nodes → P x) ∧
        ∀ x, .literal (.float x) ∈ right.nodes → P x := by
  simp [mem_nodes_comparison, or_imp, forall_and]

theorem forall_float_junction {P : Binary64 → Prop} {op first second more} :
    (∀ x, .literal (.float x) ∈ (junction op first second more).nodes → P x) ↔
      ∀ operand ∈ first :: second :: more, ∀ x, .literal (.float x) ∈ operand.nodes → P x := by
  refine ⟨fun h operand ho x hx => h x (mem_nodes_junction.2 (.inr ⟨operand, ho, hx⟩)),
    fun h x hx => ?_⟩
  obtain heq | ⟨operand, ho, hx⟩ := mem_nodes_junction.1 hx
  · cases heq
  · exact h operand ho x hx

theorem sameAll_mapFloats {rules : List Rule}
    (h : ∀ rule ∈ rules, (rule.mapFloats f).same rule = true ↔
      ∀ x, .literal (.float x) ∈ rule.nodes → f x = x) :
    sameAll (mapFloatsAll f rules) rules = true ↔
      ∀ rule ∈ rules, ∀ x, .literal (.float x) ∈ rule.nodes → f x = x := by
  induction rules with
  | nil => simp [mapFloatsAll, sameAll]
  | cons rule rest ih =>
    obtain ⟨hrule, hrest⟩ := List.forall_mem_cons.1 h
    rw [mapFloatsAll, sameAll, Bool.and_eq_true, hrule, ih hrest, List.forall_mem_cons]

/-- Provided that a float is either kept or changed to one of another value, the rule stays equal to
itself exactly if all floats are kept. -/
theorem same_mapFloats (hf : ∀ x, (f x).same x = true ↔ f x = x) (rule : Rule) :
    (rule.mapFloats f).same rule = true ↔ ∀ x, .literal (.float x) ∈ rule.nodes → f x = x := by
  induction rule with
  | literal value => cases value <;> simp [mapFloats, Literal.mapFloat, same, Literal.same, nodes, hf]
  | comparison op left right ihl ihr =>
    rw [mapFloats, same, Bool.and_eq_true, Bool.and_eq_true, ihl, ihr, forall_float_comparison]
    simp
  | negation operand ih => simp [mapFloats, same, ih, mem_nodes_negation]
  | junction op first second more ihf ihs ihm =>
    rw [mapFloats, same, Bool.and_eq_true, Bool.and_eq_true, Bool.and_eq_true, ihf, ihs,
      sameAll_mapFloats ihm, forall_float_junction]
    simp [and_assoc]
  | _ => simp [mapFloats, same, nodes]

/-- A rule whose floats are all kept is kept. -/
theorem mapFloats_eq_self (rule : Rule) (h : ∀ x, .literal (.float x) ∈ rule.nodes → f x = x) :
    rule.mapFloats f = rule := by
  induction rule with
  | literal value =>
    cases value with
    | float x => rw [mapFloats, Literal.mapFloat, h x (mem_nodes_self _)]
    | _ => rfl
  | comparison op left right ihl ihr =>
    obtain ⟨hl, hr⟩ := forall_float_comparison.1 h
    rw [mapFloats, ihl hl, ihr hr]
  | negation operand ih =>
    rw [mapFloats, ih fun x hx => h x (mem_nodes_negation.2 (.inr hx))]
  | junction op first second more ihf ihs ihm =>
    obtain ⟨hfirst, hrest⟩ := List.forall_mem_cons.1 (forall_float_junction.1 h)
    obtain ⟨hsecond, hmore⟩ := List.forall_mem_cons.1 hrest
    have hall : more.map (mapFloats f) = more :=
      (List.map_congr_left fun rule hr => ihm rule hr (hmore rule hr)).trans more.map_id'
    rw [mapFloats, ihf hfirst, ihs hsecond, mapFloatsAll_eq, hall]
  | _ => rfl

theorem mapFloats_id (rule : Rule) : rule.mapFloats id = rule :=
  rule.mapFloats_eq_self fun _ _ => rfl

/-! ## Documents -/

theorem encode_mapFloat (value : Literal) :
    (value.mapFloat f).encode = value.encode.mapFloats f := by
  cases value <;> rfl

theorem mapFloats_tagged {τ : Type} [Named τ] (tag : τ) (body : Json) :
    (tagged tag body).mapFloats f = tagged tag (body.mapFloats f) := rfl

theorem mapFloats_encode_aggregate (call : Aggregate) : call.encode.mapFloats f = call.encode := by
  obtain ⟨function, operand⟩ := call
  cases operand <;> rfl

theorem mapFloats_logicalBody (op : LogicOp) (items : List Json) :
    (logicalBody op items).mapFloats f = logicalBody op (items.map (Json.mapFloats f)) := by
  rw [← Json.mapFloatsItems_eq]
  rfl

/-- The document of a changed rule is the document with its floats changed. -/
theorem encode_mapFloats (rule : Rule) : (rule.mapFloats f).encode = rule.encode.mapFloats f := by
  induction rule with
  | literal value => rw [mapFloats, encode, encode_mapFloat, encode, mapFloats_tagged]
  | field name => rfl
  | wildcard => rfl
  | aggregate call =>
    exact (congrArg (tagged RuleTag.aggregate) (mapFloats_encode_aggregate call)).symm
  | comparison op left right ihl ihr =>
    rw [mapFloats, encode, ihl, ihr, encode, mapFloats_tagged]
    rfl
  | negation operand ih =>
    rw [mapFloats, encode, ih, encode, mapFloats_tagged, mapFloats_logicalBody]
    rfl
  | junction op first second more ihf ihs ihm =>
    have hmore : encodeAll (mapFloatsAll f more) = (encodeAll more).map (Json.mapFloats f) := by
      rw [mapFloatsAll_eq, encodeAll_eq, encodeAll_eq, List.map_map, List.map_map]
      exact List.map_congr_left ihm
    rw [mapFloats, encode, ihf, ihs, hmore, encode, mapFloats_tagged, mapFloats_logicalBody,
      List.map_cons, List.map_cons]

theorem documentHeightAll_mapFloats {rules : List Rule}
    (h : ∀ rule ∈ rules, (rule.mapFloats f).documentHeight = rule.documentHeight) :
    documentHeightAll (mapFloatsAll f rules) = documentHeightAll rules := by
  induction rules with
  | nil => rfl
  | cons rule rest ih =>
    obtain ⟨hrule, hrest⟩ := List.forall_mem_cons.1 h
    rw [mapFloatsAll, documentHeightAll, hrule, ih hrest, documentHeightAll]

@[simp] theorem documentHeight_mapFloats (rule : Rule) :
    (rule.mapFloats f).documentHeight = rule.documentHeight := by
  induction rule with
  | comparison op left right ihl ihr => rw [mapFloats, documentHeight, ihl, ihr, documentHeight]
  | negation operand ih => rw [mapFloats, documentHeight, ih, documentHeight]
  | junction op first second more ihf ihs ihm =>
    rw [mapFloats, documentHeight, ihf, ihs, documentHeightAll_mapFloats ihm, documentHeight]
  | _ => rfl

end Rule

end Screening
