import Screening.Proofs.Document.Kept
import Screening.Proofs.Document.Places

/-!
# Texts and values decoded alike

A text is decoded as it is read, member after member, and a value by its sorted members. Both come
to the same rule or to none: each decoder by shape follows its twin, provided that the decoders of
the parts do, and so all the way up to rules. The one spelling that only texts know is an array for
the body of a star.
-/

namespace Screening

open Json (Draft)

namespace Decode

open Json

/-! ## Decoders that follow one another -/

/-- What the first decoder makes of a draft, the second makes of every related draft that it has
room for. -/
def Follows {α : Type} (related : Draft → Draft → Prop) (decoder decoder' : Decoder α) : Prop :=
  ∀ draft draft', related draft draft' → ∀ room room' a, draft'.height ≤ room' →
    decoder room draft = .ok a → decoder' room' draft' = .ok a

section

variable {α β : Type} {related : Draft → Draft → Prop} {decoder decoder' : Decoder α}
  {source source' : Source}

theorem Follows.map (h : Follows related decoder decoder') (f : α → β) :
    Follows related (fun room draft => (decoder room draft).map f)
      fun room draft => (decoder' room draft).map f := by
  intro draft draft' hrel room room' b hroom hb
  obtain ⟨a, ha, rfl⟩ := ok_of_map hb
  exact congrArg (Except.map f) (h draft draft' hrel room room' a hroom ha)

theorem Follows.mono {related' : Draft → Draft → Prop} (h : Follows related decoder decoder')
    (hsub : ∀ draft draft', related' draft draft' → related draft draft') :
    Follows related' decoder decoder' :=
  fun draft draft' hrel => h draft draft' (hsub draft draft' hrel)

theorem follows_scalar (scalar : Draft → Except DecodeFault α)
    (h : ∀ draft a, scalar draft = .ok a → draft.height = 0) :
    Follows (Kept id) (fun _ => scalar) fun _ => scalar := by
  intro draft draft' hrel room room' a _ ha
  rw [hrel.eq_of_scalar (h draft a ha), ha]

theorem height_alternative {τ : Type} [Named τ] (tag : τ) (body : Draft) :
    (alternative tag body).height = body.height + 1 := by
  simp [alternative, Draft.height, draftHeightMembers, Nat.add_comm]

/-- Alternatives follow one another if their bodies do. -/
theorem Follows.tagged {τ : Type} [Named τ] {body body' : τ → Decoder α}
    (inside : τ → Draft → Draft → Prop)
    (hrel : ∀ tag draft draft', related (alternative tag draft) draft' →
      ∃ inner, draft' = alternative tag inner ∧ inside tag draft inner)
    (hbody : ∀ tag, Follows (inside tag) (body tag) (body' tag)) :
    Follows related (variant source (fun _ => .error .malformed) body)
      (variant source' (fun _ => .error .malformed) body') := by
  intro draft draft' h room room' a hroom ha
  obtain ⟨tag, inner, r, rfl, rfl, hbodyok⟩ := tagged_eq_ok_iff.1 ha
  obtain ⟨inner', rfl, hinner⟩ := hrel tag inner draft' h
  rw [height_alternative] at hroom
  obtain ⟨r', rfl⟩ := Nat.exists_eq_add_of_le' (Nat.le_of_add_left_le hroom)
  exact tagged_eq_ok_iff.2 ⟨tag, inner', r', rfl, rfl,
    hbody tag inner inner' hinner r r' a (Nat.le_of_add_le_add_right hroom) hbodyok⟩

theorem follows_name {τ : Type} [Named τ] :
    Follows (Kept id) (name τ source) (name τ source') := by
  intro draft draft' h room room' a hroom ha
  refine name_eq_ok_iff.2 ?_
  rcases name_eq_ok_iff.1 ha with rfl | ⟨-, rfl⟩
  · exact .inl (h.eq_of_scalar rfl)
  · obtain ⟨body, rfl, hbody⟩ := (h.of_id : Kept (keepBody fun _ => id) _ _).alternative
    obtain rfl := hbody.eq_of_scalar rfl
    rw [height_alternative] at hroom
    exact .inr ⟨by omega, rfl⟩

theorem Follows.items {item item' : Decoder α} (h : Follows related item item')
    {items items' : List Draft} {xs : List α} {room room' : Nat}
    (hitems : List.Forall₂ related items items') (hroom : draftHeightItems items' ≤ room')
    (hxs : List.Forall₂ (fun draft x => item room draft = .ok x) items xs) :
    List.Forall₂ (fun draft x => item' room' draft = .ok x) items' xs := by
  induction hitems generalizing xs with
  | nil =>
    cases hxs
    exact .nil
  | cons head _ ih =>
    cases hxs with
    | cons hx hxs =>
      obtain ⟨hhead, hrest⟩ := Nat.max_le.1 hroom
      exact .cons (h _ _ head room room' _ hhead hx) (ih hrest hxs)

/-- Sequences follow one another if their items do. -/
theorem Follows.sequence {item item' : Decoder α} (inside : Draft → Draft → Prop)
    (hrel : ∀ items draft', related (.array items true) draft' →
      ∃ items', draft' = .array items' true ∧ List.Forall₂ inside items items')
    (hitem : Follows inside item item') :
    Follows related (sequence item) (sequence item') := by
  intro draft draft' h room room' xs hroom hxs
  obtain ⟨items, r, rfl, rfl, hall⟩ := sequence_eq_ok_iff.1 hxs
  obtain ⟨items', rfl, hitems⟩ := hrel items draft' h
  rw [Draft.height, Nat.add_comm] at hroom
  obtain ⟨r', rfl⟩ := Nat.exists_eq_add_of_le' (Nat.le_of_add_left_le hroom)
  have hroom := Nat.le_of_add_le_add_right hroom
  exact sequence_eq_ok_iff.2 ⟨items', r', rfl, rfl, hitem.items hitems hroom hall⟩

end

section

variable {φ σ α : Type} [Named φ] {τ : φ → Type}

/-- Parts of a body are lower than the body. -/
theorem height_lt_of_mem_found {body draft : Draft} {f : φ} (h : (f, draft) ∈ found φ body) :
    draft.height < body.height := by
  cases body with
  | object members closed =>
    have hle : draft.height ≤ draftHeightMembers members :=
      draftHeightMembers_le_iff.1 (Nat.le_refl _) _ (mem_found_object.1 h)
    rw [Draft.height]
    omega
  | array items closed =>
    have hle : draft.height ≤ draftHeightItems items :=
      draftHeightItems_le_iff.1 (Nat.le_refl _) _ (List.of_mem_zip h).2
    rw [Draft.height]
    omega
  | _ => cases h

theorem Holds.height_pos {body : Draft} {part : φ → Draft} (h : Holds body part) :
    0 < body.height := by
  cases body with
  | object | array => simp [Draft.height]
  | _ => exact h.legible.elim

/-- Records of one form follow one another if their parts do. -/
theorem Form.follows (F : Form φ σ α τ) (hall : (Named.all (α := φ)).Nodup)
    {related : Draft → Draft → Prop} {decode decode' : (f : φ) → Decoder (τ f)}
    (inside : φ → Draft → Draft → Prop)
    (hrel : ∀ body body' part, related body body' → Holds body part →
      ∃ part', Holds body' part' ∧ ∀ f, inside f (part f) (part' f))
    (hparts : ∀ f, Follows (inside f) (decode f) (decode' f)) :
    Follows related (F.decoder decode) (F.decoder decode') := by
  intro body body' h room room' a hroom ha
  obtain ⟨r, part, last, rfl, hholds, hdecoded, hend⟩ := (F.decoder_eq_ok_iff hall).1 ha
  obtain ⟨part', hholds', hinside⟩ := hrel body body' part h hholds
  obtain ⟨r', rfl⟩ := Nat.exists_eq_add_of_le' (Nat.le_trans hholds'.height_pos hroom)
  refine (F.decoder_eq_ok_iff hall).2 ⟨r', part', last, rfl, hholds', fun f => ?_, hend⟩
  obtain ⟨x, hx, hget⟩ := hdecoded f
  have hlt := height_lt_of_mem_found (hholds'.mem f)
  exact ⟨x, hparts f _ _ (hinside f) r r' x (by omega) hx, hget⟩

end

/-! ## Stars -/

/-- The draft is an object. -/
def IsObject (draft : Draft) : Prop := ∃ members closed, draft = .object members closed

/-- The body of a star that stands at a place of a rule: as the rule itself or as the operand of an
aggregate. -/
inductive Starred : Draft → Draft → Prop
  | rule {body : Draft} : Starred (alternative RuleTag.wildcard body) body
  | operand {call body : Draft}
      (h : (AggregatePart.operand, alternative OperandTag.wildcard body) ∈
        found AggregatePart call) :
      Starred (alternative RuleTag.aggregate call) body

/-- Every star at a place of a rule has an object for its body. -/
def StarBodies (draft : Draft) : Prop :=
  ∀ place, Reaches draft place → ∀ body, Starred place body → IsObject body

theorem StarBodies.inside {whole part : Draft} (h : StarBodies whole)
    (hinside : Inside whole part) : StarBodies part :=
  fun place hplace => h place (.head hinside hplace)

/-- No rule stands inside an aggregate, so its own star is the only one. -/
theorem starBodies_aggregate {call : Draft}
    (h : ∀ body, (AggregatePart.operand, alternative OperandTag.wildcard body) ∈
      found AggregatePart call → IsObject body) :
    StarBodies (alternative RuleTag.aggregate call) := by
  intro place hplace body hbody
  generalize hwhole : alternative RuleTag.aggregate call = whole at hplace
  cases Relation.ReflTransGen.cases_head hplace with
  | inl heq =>
    rw [← heq, ← hwhole] at hbody
    generalize hcall : alternative RuleTag.aggregate call = whole' at hbody
    cases hbody with
    | rule => cases (alternative_inj.1 hcall).1
    | operand hmem =>
      obtain ⟨-, rfl⟩ := alternative_inj.1 hcall
      exact h body hmem
  | inr hinside =>
    obtain ⟨part, hinside, -⟩ := hinside
    cases hinside <;> cases (alternative_inj.1 hwhole).1

section

variable {source source' : Source}

/-- Objects are bodies of stars, whatever their members are. -/
theorem wildcardBody_object {members : List (Option String × Draft)}
    (h : ∀ member ∈ members, Readable WildcardPart member) (room : Nat) :
    wildcardBody source (room + 1) (.object members true) = .ok () := by
  have hnone : members.filterMap (partOf? WildcardPart) = [] := by
    rw [List.eq_nil_iff_forall_not_mem]
    rintro ⟨⟨⟩, draft⟩
  have hnamed (step : Unit → WildcardPart → Draft → Except DecodeFault Unit) :
      named step [] () members = .ok () := by
    refine named_eq_ok_iff.2 ⟨h, ?_⟩
    rw [hnone]
    exact ⟨List.nodup_nil, by simp, rfl⟩
  rw [wildcardBody, hnamed]
  rfl

theorem Kept.isObject {φ : Type} [Named φ] {keep : φ → Json → Json} {draft draft' : Draft}
    (h : Kept (keepParts keep) draft draft') (hobject : IsObject draft) : IsObject draft' := by
  obtain ⟨members, closed, rfl⟩ := hobject
  obtain ⟨value, value', hmeans, hmeans', heq⟩ := h
  cases value with
  | object =>
    cases value' with
    | object =>
      cases draft' with
      | object members' closed' => exact ⟨members', closed', rfl⟩
      | _ => cases hmeans'
    | _ => cases heq
  | _ => cases hmeans

theorem follows_wildcardBody :
    Follows (fun draft draft' => Kept knownStar draft draft' ∧ (source = .text → IsObject draft))
      (wildcardBody source) (wildcardBody source') := by
  rintro draft draft' ⟨hkept, hobject⟩ room room' ⟨⟩ hroom ha
  have hobject : IsObject draft := by
    unfold wildcardBody at ha
    split at ha
    · exact ⟨_, _, rfl⟩
    · split at ha
      · exact hobject ‹_›
      · cases ha
    · cases ha
  obtain ⟨members', closed', rfl⟩ := hkept.isObject hobject
  obtain ⟨-, value', -, hmeans', -⟩ := hkept
  cases value' with
  | object values' =>
    obtain ⟨rfl, hmembers'⟩ := hmeans'
    rw [Draft.height, Nat.add_comm] at hroom
    obtain ⟨r', rfl⟩ := Nat.exists_eq_add_of_le' (Nat.le_of_add_left_le hroom)
    exact wildcardBody_object (readable_of_means hmembers') r'
  | _ => cases hmeans'

/-! ## Rules that follow one another -/

theorem follows_literal : Follows (Kept id) (literal source) (literal source') := by
  unfold literal
  refine Follows.tagged (fun _ => Kept id) (fun tag draft draft' h => ?_) fun tag => ?_
  · exact (h.of_id : Kept (keepBody fun _ => id) _ _).alternative
  · refine follows_scalar _ fun draft a ha => ?_
    -- no kind of literal has a body with anything inside it
    cases tag <;> cases draft <;> first | rfl | cases ha

theorem follows_fieldRef : Follows (Kept knownField) (fieldRef source) (fieldRef source') := by
  rw [fieldRef_eq, fieldRef_eq]
  exact fieldForm.follows (by decide) (fun _ => Kept id)
    (fun _ _ _ h hholds => h.holds (by decide) hholds) fun _ => follows_name

theorem follows_aggregateOperand :
    Follows
      (fun draft draft' => Kept (keepBody knownOperandBody) draft draft' ∧
        (source = .text → ∀ body, draft = alternative OperandTag.wildcard body → IsObject body))
      (aggregateOperand source) (aggregateOperand source') := by
  unfold aggregateOperand
  refine Follows.tagged (fun tag draft draft' =>
      Kept (knownOperandBody tag) draft draft' ∧
        (source = .text → tag = .wildcard → IsObject draft)) ?_ fun tag => ?_
  · rintro tag draft draft' ⟨hkept, hobject⟩
    obtain ⟨inner, rfl, hinner⟩ := hkept.alternative
    exact ⟨inner, rfl, hinner, fun htext htag => hobject htext draft (htag ▸ rfl)⟩
  · cases tag with
    | field => exact (follows_fieldRef.mono fun _ _ h => h.1).map AggregateOperand.field
    | wildcard =>
      refine (follows_wildcardBody.mono fun _ _ h => ?_).map fun _ => AggregateOperand.wildcard
      exact ⟨h.1, fun htext => h.2 htext rfl⟩

theorem follows_aggregate :
    Follows
      (fun draft draft' => Kept (keepParts knownAggregatePart) draft draft' ∧
        (source = .text → ∀ body,
          (AggregatePart.operand, alternative OperandTag.wildcard body) ∈
            found AggregatePart draft → IsObject body))
      (aggregate source) (aggregate source') := by
  rw [aggregate_eq, aggregate_eq]
  refine aggregateForm.follows (by decide) (fun f draft draft' =>
      Kept (knownAggregatePart f) draft draft' ∧ (source = .text → f = .operand → ∀ body,
        draft = alternative OperandTag.wildcard body → IsObject body)) ?_ fun f => ?_
  · rintro draft draft' part ⟨hkept, hobject⟩ hholds
    obtain ⟨part', hholds', hparts⟩ := hkept.holds (by decide) hholds
    refine ⟨part', hholds', fun f => ⟨hparts f, ?_⟩⟩
    rintro htext rfl body hbody
    exact hobject htext body (hbody ▸ hholds.mem .operand)
  · cases f with
    | function => exact (follows_name (τ := AggregateFunction)).mono fun _ _ h => h.1
    | operand => exact follows_aggregateOperand.mono fun _ _ h => ⟨h.1, fun htext => h.2 htext rfl⟩

section

variable {levels : Nat} {inner inner' : Decoder Rule}

/-- What related rules have in common: their documents are equal but for members that nothing reads,
and in a text every star has an object for its body. -/
def Related (source : Source) (levels : Nat) (draft draft' : Draft) : Prop :=
  Kept (knownRule levels) draft draft' ∧ (source = .text → StarBodies draft)

/-- What the bodies of related rules have in common. -/
def RelatedBody (source : Source) (levels : Nat) (tag : RuleTag) (body body' : Draft) : Prop :=
  Kept (knownBody (knownRule levels) tag) body body' ∧
    (source = .text → StarBodies (alternative tag body))

theorem follows_comparison (h : Follows (Related source levels) inner inner') :
    Follows (RelatedBody source levels .comparison) (comparison source inner)
      (comparison source' inner') := by
  rw [comparison_eq, comparison_eq]
  refine comparisonForm.follows (by decide) (fun f draft draft' =>
      Kept (knownComparisonPart (knownRule levels) f) draft draft' ∧
        (source = .text → f ≠ .operator → StarBodies draft)) ?_ fun f => ?_
  · rintro body body' part ⟨hkept, hstars⟩ hholds
    obtain ⟨part', hholds', hparts⟩ := hkept.holds (by decide) hholds
    exact ⟨part', hholds', fun f => ⟨hparts f, fun htext hf =>
      (hstars htext).inside (.side f hf (hholds.mem f))⟩⟩
  · cases f with
    | operator => exact (follows_name (τ := Comparator)).mono fun _ _ h => h.1
    | left => exact h.mono fun _ _ h => ⟨h.1, fun htext => h.2 htext nofun⟩
    | right => exact h.mono fun _ _ h => ⟨h.1, fun htext => h.2 htext nofun⟩

theorem follows_logical (h : Follows (Related source levels) inner inner') :
    Follows (RelatedBody source levels .logical) (logical source inner)
      (logical source' inner') := by
  rw [logical_eq, logical_eq]
  refine logicalForm.follows (by decide) (fun f draft draft' =>
      Kept (knownLogicalPart (knownRule levels) f) draft draft' ∧
        (source = .text → f = .operands → ∀ items, draft = .array items true →
          ∀ item ∈ items, StarBodies item)) ?_ fun f => ?_
  · rintro body body' part ⟨hkept, hstars⟩ hholds
    obtain ⟨part', hholds', hparts⟩ := hkept.holds (by decide) hholds
    refine ⟨part', hholds', fun f => ⟨hparts f, ?_⟩⟩
    rintro htext rfl items hitems item hitem
    exact (hstars htext).inside (.operand (hitems ▸ hholds.mem .operands) hitem)
  · cases f with
    | operator => exact (follows_name (τ := LogicOp)).mono fun _ _ h => h.1
    | operands =>
      refine Follows.sequence (Related source levels) ?_ h
      rintro items draft' ⟨hkept, hstars⟩
      obtain ⟨items', rfl, hitems⟩ := hkept.items
      have hstars : ∀ item ∈ items, source = .text → StarBodies item :=
        fun item hitem htext => hstars htext rfl items rfl item hitem
      exact ⟨items', rfl, ((List.forall₂_and_left _ _).2 ⟨hstars, hitems⟩).imp fun _ _ h => h.symm⟩

end

/-- Rules are decoded alike from related drafts, wherever these come from. -/
theorem follows_ruleAt (levels : Nat) :
    Follows (Related source levels) (ruleAt source levels) (ruleAt source' levels) := by
  induction levels with
  | zero =>
    intro draft draft' _ room room' a _ ha
    cases ha
  | succ levels ih =>
    simp only [ruleAt, ruleWith_eq]
    refine Follows.tagged (RelatedBody source levels) ?_ fun tag => ?_
    · rintro tag draft draft' ⟨hkept, hstars⟩
      obtain ⟨inner, rfl, hinner⟩ := hkept.alternative
      exact ⟨inner, rfl, hinner, hstars⟩
    · cases tag with
      | literal => exact (follows_literal.mono fun _ _ h => h.1).map Rule.literal
      | field => exact (follows_fieldRef.mono fun _ _ h => h.1).map Rule.field
      | wildcard =>
        refine (follows_wildcardBody.mono fun _ _ h => ?_).map fun _ => Rule.wildcard
        exact ⟨h.1, fun htext => h.2 htext _ .refl _ .rule⟩
      | aggregate =>
        refine (follows_aggregate.mono fun _ _ h => ?_).map Rule.aggregate
        exact ⟨h.1, fun htext body hbody => h.2 htext _ .refl _ (.operand hbody)⟩
      | comparison => exact follows_comparison ih
      | logical => exact follows_logical ih

theorem rule_of_related {levels room room' : Nat} {draft draft' : Draft} {a : Rule}
    (h : Related source levels draft draft') (hlevels : room < levels) (hlevels' : room' < levels)
    (hroom : draft'.height ≤ room') (ha : rule source room draft = .ok a) :
    rule source' room' draft' = .ok a := by
  rw [← ruleAt_eq hlevels] at ha
  rw [← ruleAt_eq hlevels']
  exact follows_ruleAt levels draft draft' h room room' a hroom ha

end

end Decode

namespace Rule

open Decode

/-! ## Texts and values -/

/-- The text stands for the value, no object in it has a key twice, and every star at a place of a
rule has an object for its body. -/
structure Plain (text : String) (value : Json) : Prop where
  parse : Json.parse? text = some value
  distinct : (Json.readDraft text).1.Distinct
  stars : StarBodies (Json.readDraft text).1

section

variable {text text' : String} {value value' : Json} {rule : Rule}

theorem Plain.ends (h : Plain text value) :
    (Json.readDraft text).2 = true ∧
      (Json.readDraft text).1.value? Json.maxNesting = some value := by
  have hparse := h.parse
  simp only [Json.parse?] at hparse
  split at hparse
  · exact ⟨‹_›, hparse⟩
  · cases hparse

theorem Plain.means (h : Plain text value) : (Json.readDraft text).1.Means value :=
  Draft.means_of_value? h.ends.2 h.distinct

theorem Plain.height_le (h : Plain text value) : (Json.readDraft text).1.height ≤ Json.maxNesting :=
  Draft.height_le_of_value? h.ends.2

/-- What is read of a text is read of every text that means the same but for members that nothing
reads. -/
theorem Plain.ofJsonText_of_kept (h : Plain text value) (h' : Plain text' value')
    (hkept : Kept Json.known (Json.readDraft text).1 (Json.readDraft text').1)
    (hrule : ofJsonText text = .ok rule) : ofJsonText text' = .ok rule :=
  ofJsonText_eq_ok_iff.2 ⟨h'.ends.1, rule_of_related ⟨hkept, fun _ => h.stars⟩ (Nat.lt_succ_self _)
    (Nat.lt_succ_self _) h'.height_le (ofJsonText_eq_ok_iff.1 hrule).2⟩

/-- A rule is read of a text exactly if it is decoded from the value of the text. -/
theorem Plain.ofJsonText_iff (h : Plain text value) :
    ofJsonText text = .ok rule ↔ ofDocument value = .ok rule := by
  have hheight := h.means.height_eq ▸ h.height_le
  constructor
  · intro hrule
    have hrelated : Related .text (Json.maxNesting + 1) (Json.readDraft text).1 value.draft :=
      ⟨⟨value, value, h.means, h.means.draft, rfl⟩, fun _ => h.stars⟩
    exact rule_of_related hrelated (Nat.lt_succ_self _) (Nat.lt_succ_of_le hheight)
      (Nat.le_of_eq value.height_draft) (ofJsonText_eq_ok_iff.1 hrule).2
  · intro hrule
    have hrelated : Related .value (Json.maxNesting + 1) value.draft (Json.readDraft text).1 :=
      ⟨⟨value, value, h.means.draft, h.means, rfl⟩, nofun⟩
    exact ofJsonText_eq_ok_iff.2 ⟨h.ends.1, rule_of_related hrelated (Nat.lt_succ_of_le hheight)
      (Nat.lt_succ_self _) h.height_le hrule⟩

end

/-- A text and its value are decoded alike: to the same rule or neither. So what is read of a text
does not depend on the order of members, nor on members that nothing reads. -/
theorem ofJsonText_agrees {text : String} {value : Json} (h : Plain text value) :
    (∀ rule, ofJsonText text = .ok rule ↔ ofDocument value = .ok rule) ∧
      ∀ text' value', Plain text' value' →
        (Json.readDraft text).1.Reorders (Json.readDraft text').1 ∨ value.known = value'.known →
        ∀ rule, ofJsonText text = .ok rule ↔ ofJsonText text' = .ok rule := by
  refine ⟨fun rule => h.ofJsonText_iff, fun text' value' h' hlike rule => ?_⟩
  have hkept : Kept Json.known (Json.readDraft text).1 (Json.readDraft text').1 := by
    rcases hlike with hreorders | hknown
    · exact ⟨value, value, h.means, hreorders.means h.means, rfl⟩
    · exact ⟨value, value', h.means, h'.means, hknown⟩
  exact ⟨h.ofJsonText_of_kept h' hkept, h'.ofJsonText_of_kept h hkept.symm⟩

/-- The body of a count of records, with members that nothing reads and in another order than it is
stored. -/
def countBody : Json :=
  .object [("x", .integer 1), ("operand", .object [("wildcard", .object [("y", .array [])])]),
    ("function", .string "COUNT")]

theorem plain_countBody :
    Plain (tagged RuleTag.aggregate countBody).text
      (tagged RuleTag.aggregate countBody).sorted := by
  have hwritable : (tagged RuleTag.aggregate countBody).Writable := by
    simp [tagged, countBody, Json.Writable, Json.WritableMembers, Json.WritableItems,
      Json.FitsNumber]
  have hvalue := Json.parse?_text Json.FloatReading.rereads_bestEffort hwritable
  have hdraft := Json.readDraft_text Json.FloatReading.rereads_bestEffort hwritable
  -- there are no floats in it
  have hkept : (tagged RuleTag.aggregate countBody).mapFloats Json.FloatReading.reread =
      tagged RuleTag.aggregate countBody := rfl
  rw [hkept] at hvalue hdraft
  refine ⟨hvalue, ?_, ?_⟩
  · rw [hdraft]
    simp [tagged, countBody, Json.draft, Json.draftMembers, Json.draftItems, Draft.Distinct,
      Json.DistinctMembers, Json.DistinctItems]
  · rw [hdraft]
    refine starBodies_aggregate fun body hbody => ?_
    obtain rfl : body = .object [(some "y", .array [] true)] true := by
      simpa [alternative, Json.draft, Json.draftMembers, Json.draftItems, Named.name]
        using mem_found_object.1 hbody
    exact ⟨_, _, rfl⟩

/-- The text of a count in which members that nothing reads stand between the others. Without them
its value is the document that is stored of the count. -/
theorem ofJsonText_agrees_countBody :
    ofJsonText (tagged RuleTag.aggregate countBody).text = .ok (.aggregate ⟨.count, .wildcard⟩) ∧
      ofDocument (tagged RuleTag.aggregate countBody).sorted =
        .ok (.aggregate ⟨.count, .wildcard⟩) ∧
      (tagged RuleTag.aggregate countBody).sorted.known =
        (aggregate ⟨.count, .wildcard⟩).document := by
  have h : ofJsonText (tagged RuleTag.aggregate countBody).text =
      .ok (.aggregate ⟨.count, .wildcard⟩) := by
    decide +kernel
  exact ⟨h, ((ofJsonText_agrees plain_countBody).1 _).1 h, rfl⟩

end Rule

end Screening
