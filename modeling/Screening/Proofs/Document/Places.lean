import Mathlib.Logic.Relation
import Screening.Proofs.Document.Record
import Screening.Proofs.Rule.Nodes

/-!
# Places of rules in documents

The records that a rule's document is made of, and where rules stand in it. The nodes of a decoded
rule are what its places were decoded to: every place is decoded, however deep it is, and no node
comes from anywhere else.
-/

namespace Screening

open Json (Draft)

/-- The kind of node that a rule is. -/
def Rule.tag : Rule → RuleTag
  | .literal _ => .literal
  | .field _ => .field
  | .wildcard => .wildcard
  | .aggregate _ => .aggregate
  | .comparison .. => .comparison
  | .negation _ | .junction .. => .logical

theorem Rule.tag_of_logical? {rule : Rule} {op operands}
    (h : rule.logical? = some (op, operands)) : rule.tag = .logical := by
  cases rule with
  | negation | junction => rfl
  | _ => cases h

theorem Rule.eq_wildcard_of_tag {rule : Rule} (h : rule.tag = .wildcard) : rule = .wildcard := by
  cases rule with
  | wildcard => rfl
  | _ => cases h

namespace Decode

variable {source : Source}

/-! ## The records of rules -/

/-- A reference to a field as a record. -/
def fieldForm : Form FieldPart (Option Field) Field fun _ => Field where
  start := none
  get _ parts := parts
  set _ _ x := some x
  finish := need FieldPart.field
  get_start _ := rfl
  get_set_self _ _ _ := rfl
  get_set_of_ne _ _ _ _ h := absurd rfl h
  ext _ _ h := h .field
  exists_get _ a h _ := ⟨a, eq_some_of_need h⟩

theorem fieldRef_eq : fieldRef source = fieldForm.decoder fun _ => name Field source := rfl

/-- What a part of an aggregate is decoded to. -/
def AggregateContent : AggregatePart → Type
  | .function => AggregateFunction
  | .operand => AggregateOperand

/-- An aggregate as a record. -/
def aggregateForm : Form AggregatePart AggregateParts Aggregate AggregateContent where
  start := {}
  get
    | .function, parts => parts.function
    | .operand, parts => parts.operand
  set
    | .function, parts, x => { parts with function := some x }
    | .operand, parts, x => { parts with operand := some x }
  finish parts := do
    return ⟨← need AggregatePart.function parts.function,
      ← need AggregatePart.operand parts.operand⟩
  get_start f := by cases f <;> rfl
  get_set_self f _ _ := by cases f <;> rfl
  get_set_of_ne f g _ _ h := by cases f <;> cases g <;> first | rfl | exact absurd rfl h
  ext parts parts' h := by
    cases parts
    cases parts'
    congr
    · exact h .function
    · exact h .operand
  exists_get parts a h f := by
    obtain ⟨function, hfunction, h⟩ := bind_eq_ok.1 h
    obtain ⟨operand, hoperand, -⟩ := bind_eq_ok.1 h
    cases f
    · exact ⟨function, eq_some_of_need hfunction⟩
    · exact ⟨operand, eq_some_of_need hoperand⟩

/-- How the parts of an aggregate are decoded. -/
def aggregatePart (source : Source) : (f : AggregatePart) → Decoder (AggregateContent f)
  | .function => name AggregateFunction source
  | .operand => aggregateOperand source

theorem aggregate_eq : aggregate source = aggregateForm.decoder (aggregatePart source) := by
  refine congrArg (record _ · _) ?_
  funext room parts f draft
  cases f <;> rfl

/-- What a part of a comparison is decoded to. -/
def ComparisonContent : ComparisonPart → Type
  | .operator => Comparator
  | .left | .right => Rule

/-- The body of a comparison as a record. -/
def comparisonForm : Form ComparisonPart ComparisonParts Rule ComparisonContent where
  start := {}
  get
    | .operator, parts => parts.operator
    | .left, parts => parts.left
    | .right, parts => parts.right
  set
    | .operator, parts, x => { parts with operator := some x }
    | .left, parts, x => { parts with left := some x }
    | .right, parts, x => { parts with right := some x }
  finish parts := do
    return .comparison (← need ComparisonPart.operator parts.operator)
      (← need ComparisonPart.left parts.left) (← need ComparisonPart.right parts.right)
  get_start f := by cases f <;> rfl
  get_set_self f _ _ := by cases f <;> rfl
  get_set_of_ne f g _ _ h := by cases f <;> cases g <;> first | rfl | exact absurd rfl h
  ext parts parts' h := by
    cases parts
    cases parts'
    congr
    · exact h .operator
    · exact h .left
    · exact h .right
  exists_get parts a h f := by
    obtain ⟨op, hop, h⟩ := bind_eq_ok.1 h
    obtain ⟨left, hleft, h⟩ := bind_eq_ok.1 h
    obtain ⟨right, hright, -⟩ := bind_eq_ok.1 h
    cases f
    · exact ⟨op, eq_some_of_need hop⟩
    · exact ⟨left, eq_some_of_need hleft⟩
    · exact ⟨right, eq_some_of_need hright⟩

/-- How the parts of a comparison are decoded, given how its sides are. -/
def comparisonPart (source : Source) (side : Decoder Rule) :
    (f : ComparisonPart) → Decoder (ComparisonContent f)
  | .operator => name Comparator source
  | .left | .right => side

theorem comparison_eq (side : Decoder Rule) :
    comparison source side = comparisonForm.decoder (comparisonPart source side) := by
  refine congrArg (record _ · _) ?_
  funext room parts f draft
  cases f <;> rfl

/-- What a part of a logical node is decoded to. -/
def LogicalContent : LogicalPart → Type
  | .operator => LogicOp
  | .operands => List Rule

/-- The body of a logical node as a record. -/
def logicalForm : Form LogicalPart LogicalParts Rule LogicalContent where
  start := {}
  get
    | .operator, parts => parts.operator
    | .operands, parts => parts.operands
  set
    | .operator, parts, x => { parts with operator := some x }
    | .operands, parts, x => { parts with operands := some x }
  finish parts := do
    let op ← need LogicalPart.operator parts.operator
    let operands ← need LogicalPart.operands parts.operands
    (Rule.ofOperands op operands).mapError .arity
  get_start f := by cases f <;> rfl
  get_set_self f _ _ := by cases f <;> rfl
  get_set_of_ne f g _ _ h := by cases f <;> cases g <;> first | rfl | exact absurd rfl h
  ext parts parts' h := by
    cases parts
    cases parts'
    congr
    · exact h .operator
    · exact h .operands
  exists_get parts a h f := by
    obtain ⟨op, hop, h⟩ := bind_eq_ok.1 h
    obtain ⟨operands, hoperands, -⟩ := bind_eq_ok.1 h
    cases f
    · exact ⟨op, eq_some_of_need hop⟩
    · exact ⟨operands, eq_some_of_need hoperands⟩

/-- How the parts of a logical node are decoded, given how its operands are. -/
def logicalPart (source : Source) (operand : Decoder Rule) :
    (f : LogicalPart) → Decoder (LogicalContent f)
  | .operator => name LogicOp source
  | .operands => sequence operand

theorem logical_eq (operand : Decoder Rule) :
    logical source operand = logicalForm.decoder (logicalPart source operand) := by
  refine congrArg (record _ · _) ?_
  funext room parts f draft
  cases f <;> rfl

theorem comparison_eq_ok_iff {side : Decoder Rule} {room : Nat} {body : Draft} {a : Rule} :
    comparison source side room body = .ok a ↔
      ∃ r part op left right, room = r + 1 ∧ Holds body part ∧
        name Comparator source r (part ComparisonPart.operator) = .ok op ∧
        side r (part .left) = .ok left ∧ side r (part .right) = .ok right ∧
        a = .comparison op left right := by
  rw [comparison_eq, comparisonForm.decoder_eq_ok_iff (by decide)]
  constructor
  · rintro ⟨r, part, last, rfl, hbody, hparts, hend⟩
    obtain ⟨op, hop, hgetop⟩ := hparts .operator
    obtain ⟨left, hleft, hgetleft⟩ := hparts .left
    obtain ⟨right, hright, hgetright⟩ := hparts .right
    obtain rfl : last = ⟨some op, some left, some right⟩ := by
      cases last
      cases hgetop
      cases hgetleft
      cases hgetright
      rfl
    exact ⟨r, part, op, left, right, rfl, hbody, hop, hleft, hright, (Except.ok.inj hend).symm⟩
  · rintro ⟨r, part, op, left, right, rfl, hbody, hop, hleft, hright, rfl⟩
    refine ⟨r, part, ⟨some op, some left, some right⟩, rfl, hbody, fun f => ?_, rfl⟩
    cases f
    · exact ⟨op, hop, rfl⟩
    · exact ⟨left, hleft, rfl⟩
    · exact ⟨right, hright, rfl⟩

theorem logical_eq_ok_iff {operand : Decoder Rule} {room : Nat} {body : Draft} {a : Rule} :
    logical source operand room body = .ok a ↔
      ∃ r part op operands, room = r + 1 ∧ Holds body part ∧
        name LogicOp source r (part LogicalPart.operator) = .ok op ∧
        sequence operand r (part .operands) = .ok operands ∧
        Rule.ofOperands op operands = .ok a := by
  rw [logical_eq, logicalForm.decoder_eq_ok_iff (by decide)]
  constructor
  · rintro ⟨r, part, last, rfl, hbody, hparts, hend⟩
    obtain ⟨op, hop, hgetop⟩ := hparts .operator
    obtain ⟨operands, hoperands, hgetoperands⟩ := hparts .operands
    obtain rfl : last = ⟨some op, some operands⟩ := by
      cases last
      cases hgetop
      cases hgetoperands
      rfl
    exact ⟨r, part, op, operands, rfl, hbody, hop, hoperands, mapError_eq_ok.1 hend⟩
  · rintro ⟨r, part, op, operands, rfl, hbody, hop, hoperands, hnode⟩
    refine ⟨r, part, ⟨some op, some operands⟩, rfl, hbody, fun f => ?_, mapError_eq_ok.2 hnode⟩
    cases f
    · exact ⟨op, hop, rfl⟩
    · exact ⟨operands, hoperands, rfl⟩

/-! ## Kinds of rules -/

/-- What makes a rule, given how the rules inside it are decoded: one decoder for each kind of
node. -/
def ruleBody (source : Source) (inner : Decoder Rule) : RuleTag → Decoder Rule
  | .literal => fun room draft => (literal source room draft).map .literal
  | .field => fun room draft => (fieldRef source room draft).map .field
  | .wildcard => fun room draft => (wildcardBody source room draft).map fun _ => .wildcard
  | .aggregate => fun room draft => (aggregate source room draft).map .aggregate
  | .comparison => comparison source inner
  | .logical => logical source inner

theorem ruleWith_eq (inner : Decoder Rule) :
    ruleWith source inner =
      variant source (fun _ => .error .malformed) (ruleBody source inner) := by
  refine congrArg (variant source _) ?_
  funext tag room draft
  cases tag <;> rfl

theorem tag_of_ruleBody {inner : Decoder Rule} {tag : RuleTag} {room : Nat} {body : Draft}
    {a : Rule} (h : ruleBody source inner tag room body = .ok a) : a.tag = tag := by
  cases tag with
  | comparison =>
    obtain ⟨-, -, op, left, right, -, -, -, -, -, rfl⟩ := comparison_eq_ok_iff.1 h
    rfl
  | logical =>
    obtain ⟨-, -, op, operands, -, -, -, -, hnode⟩ := logical_eq_ok_iff.1 h
    exact Rule.tag_of_logical? (logical?_of_ofOperands hnode)
  | _ =>
    obtain ⟨x, -, rfl⟩ := ok_of_map h
    rfl

/-- A rule is decoded from an object whose one member is named for its kind. -/
theorem rule_eq_ok_iff {room : Nat} {draft : Draft} {a : Rule} :
    rule source room draft = .ok a ↔
      ∃ r body, room = r + 1 ∧ draft = alternative a.tag body ∧
        ruleBody source (rule source) a.tag r body = .ok a := by
  have hrule : rule source =
      variant source (fun _ => .error .malformed) (ruleBody source (rule source)) :=
    rule_eq.trans (ruleWith_eq _)
  rw [congrFun (congrFun hrule room) draft, tagged_eq_ok_iff]
  constructor
  · rintro ⟨tag, body, r, rfl, rfl, hbody⟩
    obtain rfl := tag_of_ruleBody hbody
    exact ⟨r, body, rfl, rfl, hbody⟩
  · rintro ⟨r, body, rfl, rfl, hbody⟩
    exact ⟨a.tag, body, r, rfl, rfl, hbody⟩

/-! ## Places -/

/-- Where a rule stands inside another: as a side of a comparison or among the operands of a logical
node. -/
inductive Inside : Draft → Draft → Prop
  | side {body part : Draft} (f : ComparisonPart) (hf : f ≠ .operator)
      (hpart : (f, part) ∈ found ComparisonPart body) :
      Inside (alternative RuleTag.comparison body) part
  | operand {body part : Draft} {items : List Draft} {closed : Bool}
      (hitems : (LogicalPart.operands, .array items closed) ∈ found LogicalPart body)
      (hpart : part ∈ items) : Inside (alternative RuleTag.logical body) part

/-- Where rules stand in a draft, at any depth. -/
abbrev Reaches : Draft → Draft → Prop := Relation.ReflTransGen Inside

/-- A rule that stands inside a decoded one was decoded itself, to a part of it. -/
theorem Inside.decoded {whole part : Draft} (h : Inside whole part) {room : Nat} {a : Rule}
    (ha : rule source room whole = .ok a) :
    ∃ r b, rule source r part = .ok b ∧ b.nodes ⊆ a.nodes := by
  obtain ⟨r, body, rfl, hwhole, hbody⟩ := rule_eq_ok_iff.1 ha
  cases h with
  | side f hf hpart =>
    obtain ⟨htag, rfl⟩ := alternative_inj.1 hwhole
    rw [← htag] at hbody
    obtain ⟨s, p, op, left, right, rfl, hholds, -, hleft, hright, rfl⟩ :=
      comparison_eq_ok_iff.1 hbody
    obtain rfl := hholds.eq hpart
    cases f with
    | operator => exact absurd rfl hf
    | left => exact ⟨s, left, hleft, fun _ hn => Rule.mem_nodes_comparison.2 (.inr (.inl hn))⟩
    | right => exact ⟨s, right, hright, fun _ hn => Rule.mem_nodes_comparison.2 (.inr (.inr hn))⟩
  | operand hitems hpart =>
    obtain ⟨htag, rfl⟩ := alternative_inj.1 hwhole
    rw [← htag] at hbody
    obtain ⟨s, p, op, operands, rfl, hholds, -, hoperands, hnode⟩ := logical_eq_ok_iff.1 hbody
    obtain ⟨items, t, rfl, heq, hall⟩ := sequence_eq_ok_iff.1 hoperands
    obtain ⟨rfl, -⟩ := Draft.array.inj ((hholds.eq hitems).trans heq)
    obtain ⟨b, hb, hpart⟩ := forall₂_mem_left hall hpart
    have hlogical := logical?_of_ofOperands hnode
    exact ⟨t, b, hpart, fun _ hn => (Rule.mem_nodes_of_logical? hlogical).2 (.inr ⟨b, hb, hn⟩)⟩

/-- So was one that stands inside it at any depth. -/
theorem Reaches.decoded {whole part : Draft} (h : Reaches whole part) {room : Nat} {a : Rule}
    (ha : rule source room whole = .ok a) :
    ∃ r b, rule source r part = .ok b ∧ b.nodes ⊆ a.nodes := by
  induction h with
  | refl => exact ⟨room, a, ha, List.Subset.refl _⟩
  | tail _ hinside ih =>
    obtain ⟨r, b, hb, hsub⟩ := ih
    obtain ⟨s, c, hc, hsub'⟩ := hinside.decoded hb
    exact ⟨s, c, hc, List.Subset.trans hsub' hsub⟩

/-- Every node of a decoded rule was decoded at a place of its own. -/
theorem exists_reaches {room : Nat} {draft : Draft} {a node : Rule}
    (ha : rule source room draft = .ok a) (hn : node ∈ a.nodes) :
    ∃ part r, Reaches draft part ∧ rule source r part = .ok node := by
  induction room using Nat.strongRecOn generalizing draft a with
  | ind room ih =>
    -- where a rule stands inside this one, the claim holds for its nodes
    have hdeeper : ∀ {part r b}, r < room → Inside draft part → rule source r part = .ok b →
        node ∈ b.nodes → ∃ part r, Reaches draft part ∧ rule source r part = .ok node := by
      intro part r b hr hinside hb hn
      obtain ⟨place, s, hplace, hs⟩ := ih r hr hb hn
      exact ⟨place, s, .head hinside hplace, hs⟩
    by_cases hself : node = a
    · subst hself
      exact ⟨draft, room, .refl, ha⟩
    obtain ⟨r, body, rfl, rfl, hbody⟩ := rule_eq_ok_iff.1 ha
    cases htag : a.tag with
    | comparison =>
      rw [htag] at hbody hdeeper
      obtain ⟨s, p, op, left, right, rfl, hholds, -, hleft, hright, rfl⟩ :=
        comparison_eq_ok_iff.1 hbody
      rcases Rule.mem_nodes_comparison.1 hn with hn | hn | hn
      · exact absurd hn hself
      · exact hdeeper (by omega) (.side .left nofun (hholds.mem .left)) hleft hn
      · exact hdeeper (by omega) (.side .right nofun (hholds.mem .right)) hright hn
    | logical =>
      rw [htag] at hbody hdeeper
      obtain ⟨s, p, op, operands, rfl, hholds, -, hoperands, hnode⟩ := logical_eq_ok_iff.1 hbody
      obtain ⟨items, t, rfl, heq, hall⟩ := sequence_eq_ok_iff.1 hoperands
      rcases (Rule.mem_nodes_of_logical? (logical?_of_ofOperands hnode)).1 hn with hn | ⟨b, hb, hn⟩
      · exact absurd hn hself
      · obtain ⟨part, hpart, hdecoded⟩ := forall₂_mem_left hall.flip hb
        exact hdeeper (by omega) (.operand (heq ▸ hholds.mem .operands) hpart) hdecoded hn
    | _ =>
      refine absurd ?_ hself
      cases a with
      | comparison | negation | junction => cases htag
      | _ => exact List.mem_singleton.1 hn

end Decode

end Screening
