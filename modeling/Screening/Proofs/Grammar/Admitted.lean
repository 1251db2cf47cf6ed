import Screening.Proofs.Grammar.Tree

/-!
# Admission and shapes

What is checked on tokens decides the shape of the tree: tokens that a category generates are
free of breaches exactly if their rule has the shape that the category promises.
-/

namespace Screening

namespace Admission

/-! ## Fields -/

/-- The token stands for no unknown field wherever it stands: it is no bare word, and if it is a
field's name then that of a field there is. -/
def WellNamed (t : Token) : Prop :=
  t.kind ≠ .identifier ∧ (t.kind = .field → Named.isName Field t.text = true)

theorem WellNamed.misnamed {t : Token} (h : WellNamed t)
    (before : Option TokenKind × Option TokenKind) (rest : List Token) :
    misnamed before t rest = false := by
  obtain ⟨hword, hfield⟩ := h
  rw [Admission.misnamed]
  split
  · next hk => simp [hfield hk]
  · next hk => exact absurd hk hword
  · rfl

theorem misnamedTexts_eq_nil {ts : List Token} (h : ∀ t ∈ ts, WellNamed t)
    (before : Option TokenKind × Option TokenKind) : misnamedTexts before ts = [] := by
  induction ts generalizing before with
  | nil => rfl
  | cons t rest ih =>
    obtain ⟨ht, hrest⟩ := List.forall_mem_cons.1 h
    simp [misnamedTexts, ht.misnamed, ih hrest]

theorem unknownFields_eq_nil {ts : List Token} (h : ∀ t ∈ ts, WellNamed t) :
    unknownFields ts = [] := by
  rw [unknownFields, misnamedTexts_eq_nil h]
  rfl

/-! ## Checks -/

/-- Tokens pass exactly if no field is unknown and the category has nothing against them. -/
theorem check_eq_ok {ts : List Token} {category : Category} :
    check ts category = .ok () ↔ unknownFields ts = [] ∧ breach? category ts = none := by
  simp only [check]
  split
  · next hu => cases hb : breach? category ts <;> simp [hu]
  · next hu =>
    have hne : unknownFields ts ≠ [] := hu
    simp [hne]

theorem breach?_threshold {ts : List Token} :
    breach? .threshold ts = none ↔ has .logicOp ts = false ∧ has .aggregateFunction ts = false ∧
      has .comparisonOp ts = true := by
  simp only [breach?]
  cases has .logicOp ts <;> cases has .aggregateFunction ts <;> cases has .comparisonOp ts <;> simp

theorem breach?_pattern {ts : List Token} :
    breach? .pattern ts = none ↔ has .logicOp ts = false ∧ has .aggregateFunction ts = true ∧
      has .comparisonOp ts = true := by
  simp only [breach?]
  cases has .logicOp ts <;> cases has .aggregateFunction ts <;> cases has .comparisonOp ts <;> simp

theorem breach?_composite {ts : List Token} :
    breach? .composite ts = none ↔ has .logicOp ts = true ∧ has .aggregateFunction ts = false := by
  simp only [breach?]
  cases has .logicOp ts <;> cases has .aggregateFunction ts <;> simp

/-! ## Changed tokens -/

/-- The change leaves the kinds of tokens, and the texts of all but strings. -/
structure Keeps (change : Token → Token) : Prop where
  kind : ∀ t, (change t).kind = t.kind
  text : ∀ t, t.kind ≠ .string → (change t).text = t.text

namespace Keeps

variable {change : Token → Token}

theorem misnamed (h : Keeps change) (before : Option TokenKind × Option TokenKind) (t : Token)
    (rest : List Token) :
    Admission.misnamed before (change t) (rest.map change) = Admission.misnamed before t rest := by
  have hhead : (rest.map change).head?.map Token.kind = rest.head?.map Token.kind := by
    cases rest <;> simp [h.kind]
  simp only [Admission.misnamed, h.kind, hhead]
  split
  · next hk => rw [h.text t (by simp [hk])]
  · rfl
  · rfl

theorem misnamedTexts (h : Keeps change) (ts : List Token)
    (before : Option TokenKind × Option TokenKind) :
    Admission.misnamedTexts before (ts.map change) = Admission.misnamedTexts before ts := by
  induction ts generalizing before with
  | nil => rfl
  | cons t rest ih =>
    simp only [List.map_cons, Admission.misnamedTexts, h.misnamed, h.kind, ih]
    split
    · next hmisnamed =>
      -- strings are not misnamed, so the text is the same
      have hk : t.kind ≠ .string := by
        intro hk
        simp [Admission.misnamed, hk] at hmisnamed
      rw [h.text t hk]
    · rfl

theorem has (h : Keeps change) (kind : TokenKind) (ts : List Token) :
    Admission.has kind (ts.map change) = Admission.has kind ts := by
  simp [Admission.has, Function.comp_def, h.kind]

/-- Tokens so changed are admitted or refused as they were. -/
theorem check (h : Keeps change) (ts : List Token) (category : Category) :
    Admission.check (ts.map change) category = Admission.check ts category := by
  simp only [Admission.check, unknownFields, h.misnamedTexts, breach?, h.has]

end Keeps

end Admission

/-- A rule with a logical operator in it is a condition. -/
theorem Rule.isCondition_of_isLogical {rule node : Rule} (hn : node ∈ rule.nodes)
    (hl : node.isLogical = true) : rule.isCondition = true := by
  cases rule with
  | comparison => rfl
  | negation => rfl
  | junction => rfl
  | _ =>
    obtain rfl := List.mem_singleton.1 hn
    cases hl

namespace Grammar

open Admission

/-! ## Marks -/

/-- Logical operators among the tokens are logical nodes of the tree. -/
theorem Derives.has_logicOp {symbol d ts rule} (h : Derives symbol d ts rule) :
    has .logicOp ts = true ↔ ∃ node ∈ rule.nodes, node.isLogical = true := by
  rw [has_iff, h.exists_kind_iff (.inr (.inl rfl))]
  simp only [Rule.mark_eq_logicOp]

/-- Aggregate functions among the tokens are aggregates of the tree. -/
theorem Derives.has_aggregateFunction {symbol d ts rule} (h : Derives symbol d ts rule) :
    has .aggregateFunction ts = true ↔ ∃ node ∈ rule.nodes, node.isAggregate = true := by
  rw [has_iff, h.exists_kind_iff (.inr (.inr rfl))]
  simp only [Rule.mark_eq_aggregateFunction]

/-- A comparison has a comparator among its tokens. -/
theorem Derives.has_comparisonOp {symbol d ts op left right}
    (h : Derives symbol d ts (.comparison op left right)) : has .comparisonOp ts = true := by
  rw [has_iff, h.exists_kind_iff (.inl rfl)]
  exact ⟨_, Rule.mem_nodes_self _, rfl⟩

/-! ## Shapes -/

theorem Generates.derives {category d ts rule} (h : Generates category d ts rule) :
    ∃ symbol, Derives symbol d ts rule := by
  cases h with
  | threshold h => exact ⟨_, h⟩
  | pattern hl ht hr => exact ⟨_, .compare hl ht hr⟩
  | composite h => exact ⟨_, h⟩

/-- Tokens that a category generates are free of breaches exactly if the rule has the shape that
the category promises. -/
theorem Generates.breach?_eq_none_iff {category d ts rule} (h : Generates category d ts rule) :
    breach? category ts = none ↔ rule.HasShape category := by
  obtain ⟨symbol, hd⟩ := h.derives
  have hlogic : has .logicOp ts = false ↔ ∀ node ∈ rule.nodes, node.isLogical = false := by
    rw [← Bool.not_eq_true, hd.has_logicOp]
    simp
  have haggregate :
      has .aggregateFunction ts = false ↔ ∀ node ∈ rule.nodes, node.isAggregate = false := by
    rw [← Bool.not_eq_true, hd.has_aggregateFunction]
    simp
  cases h with
  | @threshold _ _ op left right =>
    rw [breach?_threshold, hlogic, haggregate]
    constructor
    · intro hx
      obtain ⟨hl, ha, -⟩ := hx
      exact ⟨⟨op, left, right, rfl⟩, hl, ha⟩
    · intro hx
      obtain ⟨-, hl, ha⟩ := hx
      exact ⟨hl, ha, hd.has_comparisonOp⟩
  | @pattern _ _ _ _ op call v =>
    have hshape : (Rule.comparison op (.aggregate call) (.literal v)).HasShape .pattern :=
      ⟨op, call, v, rfl⟩
    refine ⟨fun _ => hshape, fun _ => breach?_pattern.2 ⟨hlogic.2 ?_, ?_, hd.has_comparisonOp⟩⟩
    · simp [Rule.nodes, Rule.isLogical]
    · exact hd.has_aggregateFunction.2 ⟨.aggregate call, by simp [Rule.nodes], rfl⟩
  | composite =>
    rw [breach?_composite, hd.has_logicOp, haggregate]
    constructor
    · intro hx
      obtain ⟨⟨node, hn, hl⟩, ha⟩ := hx
      exact ⟨Rule.isCondition_of_isLogical hn hl, ⟨node, hn, hl⟩, ha⟩
    · intro hx
      obtain ⟨-, hl, ha⟩ := hx
      exact ⟨hl, ha⟩

end Grammar

end Screening
