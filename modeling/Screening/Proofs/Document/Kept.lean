import Screening.Proofs.Document.Meaning

/-!
# What is kept of documents

The members of a document that a decoder looks at. Two bodies that are equal but for the other
members, in whatever order, hold the same parts, and so do their drafts: part by part they agree on
what is kept of them.
-/

namespace Screening

open Json (Draft)

/-! ## Members that nothing reads -/

namespace Json

section

variable {φ : Type}

/-- Treats the items of an array as the parts that they are. -/
def keepItems (keep : φ → Json → Json) : List φ → List Json → List Json
  | f :: fs, item :: rest => keep f item :: keepItems keep fs rest
  | _, items => items

/-- A record's body without the members that are no parts, the parts treated each in its own way. -/
def keepParts [Named φ] (keep : φ → Json → Json) : Json → Json
  | .object members => .object (members.filterMap fun member =>
      (Named.find? member.1).map fun f => (member.1, keep f member.2))
  | .array items => .array (keepItems keep Named.all items)
  | value => value

/-- An alternative with its body treated in its own way. -/
def keepBody {τ : Type} [Named τ] (keep : τ → Json → Json) : Json → Json
  | .object [(key, body)] =>
    .object [(key, ((Named.find? key).map fun tag => keep tag body).getD body)]
  | value => value

/-- An array with all its items treated in one way. -/
def keepAll (keep : Json → Json) : Json → Json
  | .array items => .array (items.map keep)
  | value => value

end

/-- A reference to a field, without the members that nothing reads. -/
def knownField : Json → Json := keepParts fun (_ : FieldPart) => id

/-- The body of a star, without its members. -/
def knownStar : Json → Json := keepParts fun (f : WildcardPart) => nomatch f

/-- The body of what an aggregate ranges over, without the members that nothing reads. -/
def knownOperandBody : OperandTag → Json → Json
  | .field => knownField
  | .wildcard => knownStar

/-- The parts of an aggregate, without the members that nothing reads. -/
def knownAggregatePart : AggregatePart → Json → Json
  | .function => id
  | .operand => keepBody knownOperandBody

/-- The parts of a comparison, given how its sides are treated. -/
def knownComparisonPart (side : Json → Json) : ComparisonPart → Json → Json
  | .operator => id
  | .left | .right => side

/-- The parts of a logical node, given how its operands are treated. -/
def knownLogicalPart (operand : Json → Json) : LogicalPart → Json → Json
  | .operator => id
  | .operands => keepAll operand

/-- The body of a rule, given how the rules inside it are treated. -/
def knownBody (inner : Json → Json) : RuleTag → Json → Json
  | .literal => id
  | .field => knownField
  | .wildcard => knownStar
  | .aggregate => keepParts knownAggregatePart
  | .comparison => keepParts (knownComparisonPart inner)
  | .logical => keepParts (knownLogicalPart inner)

/-- A rule in which rules lie `levels` deep at most, without the members that nothing reads. -/
def knownRule : (levels : Nat) → Json → Json
  | 0 => id
  | levels + 1 => keepBody (knownBody (knownRule levels))

/-- The document of a rule without the members that nothing reads, as deep as a text can be. -/
def known : Json → Json := knownRule (maxNesting + 1)

end Json

namespace Decode

open Json

/-! ## Parts of values -/

section

variable {φ : Type} [Named φ]

/-- The value is a body with these parts: an object that has them as members, or an array of them in
order of declaration. -/
def HasParts (body : Json) (part : φ → Json) : Prop :=
  match body with
  | .object members => ∀ f, (Named.name f, part f) ∈ members
  | .array items =>
    items.length = (Named.all (α := φ)).length ∧ ∀ f, (f, part f) ∈ Named.all.zip items
  | _ => False

theorem partOf?_eq_some_iff {member : Option String × Draft} {f : φ} {draft : Draft} :
    partOf? φ member = some (f, draft) ↔ member = (some (Named.name f), draft) := by
  obtain ⟨key, value⟩ := member
  cases key with
  | none => simp [partOf?]
  | some key =>
    simp only [partOf?, Option.bind_some, Option.map_eq_some_iff, Named.find?_eq_some_iff,
      Prod.mk.injEq, Option.some.injEq]
    constructor
    · rintro ⟨g, rfl, rfl, rfl⟩
      exact ⟨rfl, rfl⟩
    · rintro ⟨rfl, rfl⟩
      exact ⟨f, rfl, rfl, rfl⟩

theorem mem_found_object {members : List (Option String × Draft)} {closed : Bool} {f : φ}
    {draft : Draft} :
    (f, draft) ∈ found φ (.object members closed) ↔ (some (Named.name f), draft) ∈ members := by
  simp [found, List.mem_filterMap, partOf?_eq_some_iff]

/-- If no key comes twice, no part does. -/
theorem nodup_found {members : List (Option String × Draft)} {closed : Bool}
    (hkeys : (members.map Prod.fst).Nodup) :
    ((found φ (.object members closed)).map Prod.fst).Nodup := by
  induction members with
  | nil => exact List.nodup_nil
  | cons member rest ih =>
    obtain ⟨hnew, honce⟩ := List.nodup_cons.1 hkeys
    cases hpart : partOf? φ member with
    | none => simpa only [found, List.filterMap_cons, hpart] using ih honce
    | some part =>
      have hfound : found φ (.object (member :: rest) closed) =
          part :: found φ (.object rest closed) := by
        simp only [found, List.filterMap_cons, hpart]
      rw [hfound, List.map_cons, List.nodup_cons]
      refine ⟨fun hmem => hnew ?_, ih honce⟩
      obtain ⟨⟨f, draft⟩, hrest, hf⟩ := List.mem_map.1 hmem
      rw [partOf?_eq_some_iff.1 hpart, show part.1 = f from hf.symm]
      exact List.mem_map.2 ⟨_, mem_found_object.1 hrest, rfl⟩

omit [Named φ] in
theorem forall₂_zip_left {α β : Type} {R : α → β → Prop} {as : List α} {bs : List β}
    (h : List.Forall₂ R as bs) {fs : List φ} {f : φ} {a : α} (hmem : (f, a) ∈ fs.zip as) :
    ∃ b, (f, b) ∈ fs.zip bs ∧ R a b := by
  induction h generalizing fs with
  | nil => simp at hmem
  | cons head tail ih =>
    cases fs with
    | nil => simp at hmem
    | cons g fs =>
      rcases List.mem_cons.1 hmem with heq | hmem
      · obtain ⟨rfl, rfl⟩ := Prod.mk.inj heq
        exact ⟨_, List.mem_cons_self, head⟩
      · obtain ⟨b, hb, hab⟩ := ih hmem
        exact ⟨b, List.mem_cons_of_mem _ hb, hab⟩

/-- The parts that a body holds mean parts of what the body means. -/
theorem Holds.exists_hasParts {body : Draft} {part : φ → Draft} (h : Holds body part) {value : Json}
    (hmeans : body.Means value) :
    ∃ part' : φ → Json, HasParts value part' ∧ ∀ f, (part f).Means (part' f) := by
  cases body with
  | object members closed =>
    cases value with
    | object values =>
      have hvalue (f : φ) := hmeans.2.exists_value (mem_found_object.1 (h.mem f))
      choose part' hmem hpart' using hvalue
      exact ⟨part', hmem, hpart'⟩
    | _ => cases hmeans
  | array items closed =>
    cases value with
    | array values =>
      have hall := meansItems_iff.1 hmeans.2
      have hvalue (f : φ) := forall₂_zip_left hall (h.mem f)
      choose part' hmem hpart' using hvalue
      exact ⟨part', ⟨hall.length_eq.symm.trans h.legible.2, hmem⟩, hpart'⟩
    | _ => cases hmeans
  | _ => exact h.legible.elim

/-- No member of an object that means something stops a record. -/
theorem readable_of_means {members : List (Option String × Draft)} {values : List (String × Json)}
    (h : MeansMembers members values) : ∀ member ∈ members, Readable φ member := by
  rintro ⟨key, draft⟩ hm
  obtain ⟨k, rfl⟩ := h.exists_key hm
  obtain ⟨value, -, hvalue⟩ := h.exists_value hm
  exact ⟨k, rfl, fun _ => hvalue.complete⟩

/-- A body holds its parts if what it means has them. -/
theorem HasParts.exists_holds (hall : (Named.all (α := φ)).Nodup) {value : Json} {part : φ → Json}
    (h : HasParts value part) {body : Draft} (hmeans : body.Means value) :
    ∃ part' : φ → Draft, Holds body part' ∧ ∀ f, (part' f).Means (part f) := by
  cases value with
  | object values =>
    cases body with
    | object members closed =>
      obtain ⟨rfl, hmembers⟩ := hmeans
      have hdraft (f : φ) := hmembers.exists_member (h f)
      choose part' hmem hpart' using hdraft
      refine ⟨part', ⟨⟨rfl, ?_⟩, ?_, fun f => mem_found_object.2 (hmem f)⟩, hpart'⟩
      · exact readable_of_means hmembers
      · exact nodup_found hmembers.nodup
    | _ => cases hmeans
  | array values =>
    cases body with
    | array items closed =>
      obtain ⟨rfl, hitems⟩ := hmeans
      have hitems := meansItems_iff.1 hitems
      have hdraft (f : φ) := forall₂_zip_left hitems.flip (h.2 f)
      choose part' hmem hpart' using hdraft
      have hlength := hitems.length_eq.trans h.1
      refine ⟨part', ⟨⟨rfl, hlength⟩, ?_, hmem⟩, hpart'⟩
      rwa [found, List.map_fst_zip (Nat.le_of_eq hlength.symm)]
    | _ => cases hmeans
  | _ => exact h.elim

end

/-! ## Kept parts -/

/-- The drafts mean values that are equal but for what is not kept of them. -/
def Kept (keep : Json → Json) (draft draft' : Draft) : Prop :=
  ∃ value value', draft.Means value ∧ draft'.Means value' ∧ keep value = keep value'

section

variable {draft draft' : Draft}

theorem Kept.of_id {keep : Json → Json} (h : Kept id draft draft') : Kept keep draft draft' := by
  obtain ⟨value, value', hmeans, hmeans', heq⟩ := h
  exact ⟨value, value', hmeans, hmeans', congrArg keep heq⟩

theorem Kept.symm {keep : Json → Json} (h : Kept keep draft draft') : Kept keep draft' draft := by
  obtain ⟨value, value', hmeans, hmeans', heq⟩ := h
  exact ⟨value', value, hmeans', hmeans, heq.symm⟩

/-- Drafts of one scalar are the same. -/
theorem Kept.eq_of_scalar (h : Kept id draft draft') (hscalar : draft.height = 0) :
    draft' = draft := by
  obtain ⟨value, value', hmeans, hmeans', heq⟩ := h
  obtain rfl : value = value' := heq
  cases draft with
  | array | object => simp [Draft.height] at hscalar
  | _ =>
    cases value <;> cases draft' <;> first | cases hmeans; done | cases hmeans'; done | skip
    all_goals simp_all [Draft.Means]

end

section

variable {τ : Type} [Named τ] {tag : τ}

theorem means_alternative {body : Draft} {value : Json} (h : (alternative tag body).Means value) :
    ∃ inside, value = .object [(Named.name tag, inside)] ∧ body.Means inside := by
  cases value with
  | object values =>
    obtain ⟨-, k, inside, others, hkey, hinside, hvalues, -, hothers⟩ := h
    cases hkey
    obtain rfl : others = [] := hothers
    exact ⟨inside, congrArg Json.object (List.perm_singleton.1 hvalues), hinside⟩
  | _ => cases h

theorem exists_alternative {draft : Draft} {inside : Json}
    (h : draft.Means (.object [(Named.name tag, inside)])) :
    ∃ body, draft = alternative tag body ∧ body.Means inside := by
  cases draft with
  | object members closed =>
    obtain ⟨rfl, h⟩ := h
    cases members with
    | nil => cases h
    | cons member rest =>
      obtain ⟨key, body⟩ := member
      obtain ⟨k, value, others, rfl, hvalue, hvalues, -, hrest⟩ := h
      obtain ⟨heq, rfl⟩ := List.cons.inj (List.singleton_perm.1 hvalues)
      obtain ⟨rfl, rfl⟩ := Prod.mk.inj heq
      cases rest with
      | nil => exact ⟨body, rfl, hvalue⟩
      | cons =>
        obtain ⟨_, _, _, _, _, hnil, _⟩ := hrest
        cases hnil.nil_eq
  | _ => cases h

theorem keepBody_tagged {keep : τ → Json → Json} {inside : Json} :
    keepBody keep (.object [(Named.name tag, inside)]) =
      .object [(Named.name tag, keep tag inside)] := by
  simp [keepBody]

theorem exists_of_keepBody_eq {keep : τ → Json → Json} {value inside : Json}
    (h : keepBody keep value = .object [(Named.name tag, inside)]) :
    ∃ inside', value = .object [(Named.name tag, inside')] ∧ keep tag inside' = inside := by
  unfold keepBody at h
  split at h
  · rename_i key body
    simp only [object.injEq, List.cons.injEq, Prod.mk.injEq, and_true] at h
    obtain ⟨rfl, rfl⟩ := h
    exact ⟨body, rfl, by simp⟩
  · rename_i hnot
    exact (hnot _ _ h).elim

/-- Kept alternatives have one name and kept bodies. -/
theorem Kept.alternative {keep : τ → Json → Json} {body draft : Draft}
    (h : Kept (keepBody keep) (alternative tag body) draft) :
    ∃ body', draft = Decode.alternative tag body' ∧ Kept (keep tag) body body' := by
  obtain ⟨value, value', hmeans, hmeans', heq⟩ := h
  obtain ⟨inside, rfl, hinside⟩ := means_alternative hmeans
  rw [keepBody_tagged] at heq
  obtain ⟨inside', rfl, hkeep⟩ := exists_of_keepBody_eq heq.symm
  obtain ⟨body', rfl, hinside'⟩ := exists_alternative hmeans'
  exact ⟨body', rfl, inside, inside', hinside, hinside', hkeep.symm⟩

end

section

variable {φ : Type}

theorem length_keepItems {keep : φ → Json → Json} {fs : List φ} {items : List Json} :
    (keepItems keep fs items).length = items.length := by
  induction fs generalizing items with
  | nil => rfl
  | cons f fs ih =>
    cases items with
    | nil => rfl
    | cons item rest => simp [keepItems, ih]

theorem mem_zip_keepItems {keep : φ → Json → Json} {fs : List φ} {items : List Json} {f : φ}
    {value : Json} :
    (f, value) ∈ fs.zip (keepItems keep fs items) ↔
      ∃ item, (f, item) ∈ fs.zip items ∧ keep f item = value := by
  induction fs generalizing items with
  | nil => simp
  | cons g fs ih =>
    cases items with
    | nil => simp [keepItems]
    | cons item rest =>
      simp only [keepItems, List.zip_cons_cons, List.mem_cons, Prod.mk.injEq, ih]
      constructor
      · rintro (⟨rfl, rfl⟩ | ⟨item', hmem, rfl⟩)
        · exact ⟨item, .inl ⟨rfl, rfl⟩, rfl⟩
        · exact ⟨item', .inr hmem, rfl⟩
      · rintro ⟨item', ⟨rfl, rfl⟩ | hmem, rfl⟩
        · exact .inl ⟨rfl, rfl⟩
        · exact .inr ⟨item', hmem, rfl⟩

variable [Named φ]

theorem mem_keepMembers {keep : φ → Json → Json} {members : List (String × Json)} {f : φ}
    {value : Json} :
    (Named.name f, value) ∈ members.filterMap (fun member =>
        (Named.find? member.1).map fun f => (member.1, keep f member.2)) ↔
      ∃ item, (Named.name f, item) ∈ members ∧ keep f item = value := by
  simp only [List.mem_filterMap, Option.map_eq_some_iff, Prod.mk.injEq, Prod.exists]
  constructor
  · rintro ⟨key, item, hmem, g, hfind, rfl, rfl⟩
    obtain rfl : f = g := Option.some.inj ((Named.find?_name f).symm.trans hfind)
    exact ⟨item, hmem, rfl⟩
  · rintro ⟨item, hmem, rfl⟩
    exact ⟨_, item, hmem, f, Named.find?_name f, rfl, rfl⟩

/-- If one of two kept bodies has parts, so has the other, and the parts are kept. -/
theorem HasParts.of_keepParts_eq {keep : φ → Json → Json} {value value' : Json} {part : φ → Json}
    (h : HasParts value part) (heq : keepParts keep value = keepParts keep value') :
    ∃ part' : φ → Json, HasParts value' part' ∧ ∀ f, keep f (part f) = keep f (part' f) := by
  cases value with
  | object members =>
    cases value' with
    | object members' =>
      have hmembers := object.inj heq
      have hmem (f : φ) := mem_keepMembers.1 (hmembers ▸ mem_keepMembers.2 ⟨_, h f, rfl⟩)
      choose part' hpart' hkeep using hmem
      exact ⟨part', hpart', fun f => (hkeep f).symm⟩
    | _ => cases heq
  | array items =>
    cases value' with
    | array items' =>
      have hitems := array.inj heq
      have hmem (f : φ) := mem_zip_keepItems.1 (hitems ▸ mem_zip_keepItems.2 ⟨_, h.2 f, rfl⟩)
      choose part' hpart' hkeep using hmem
      have hlength := congrArg List.length hitems
      rw [length_keepItems, length_keepItems] at hlength
      exact ⟨part', ⟨hlength.symm.trans h.1, hpart'⟩, fun f => (hkeep f).symm⟩
    | _ => cases heq
  | _ => exact h.elim

/-- If one of two kept bodies holds parts, so does the other, and the parts are kept. -/
theorem Kept.holds (hall : (Named.all (α := φ)).Nodup) {keep : φ → Json → Json}
    {body body' : Draft} (h : Kept (keepParts keep) body body') {part : φ → Draft}
    (hholds : Holds body part) :
    ∃ part' : φ → Draft, Holds body' part' ∧ ∀ f, Kept (keep f) (part f) (part' f) := by
  obtain ⟨value, value', hmeans, hmeans', heq⟩ := h
  obtain ⟨q, hq, hparts⟩ := hholds.exists_hasParts hmeans
  obtain ⟨q', hq', hkeep⟩ := hq.of_keepParts_eq heq
  obtain ⟨part', hholds', hparts'⟩ := hq'.exists_holds hall hmeans'
  exact ⟨part', hholds', fun f => ⟨q f, q' f, hparts f, hparts' f, hkeep f⟩⟩

end

theorem forall₂_kept {keep : Json → Json} {items items' : List Draft} {values values' : List Json}
    (h : List.Forall₂ Draft.Means items values) (h' : List.Forall₂ Draft.Means items' values')
    (heq : values.map keep = values'.map keep) : List.Forall₂ (Kept keep) items items' := by
  induction h generalizing items' values' with
  | nil =>
    obtain rfl : values' = [] := List.map_eq_nil_iff.1 heq.symm
    cases h'
    exact .nil
  | cons head _ ih =>
    cases h' with
    | nil => cases heq
    | cons head' tail' =>
      obtain ⟨hhead, htail⟩ := List.cons.inj heq
      exact .cons ⟨_, _, head, head', hhead⟩ (ih tail' htail)

/-- Kept arrays have kept items. -/
theorem Kept.items {keep : Json → Json} {items : List Draft} {closed : Bool} {draft : Draft}
    (h : Kept (keepAll keep) (.array items closed) draft) :
    ∃ items', draft = .array items' true ∧ List.Forall₂ (Kept keep) items items' := by
  obtain ⟨value, value', hmeans, hmeans', heq⟩ := h
  cases value with
  | array values =>
    cases value' with
    | array values' =>
      cases draft with
      | array items' closed' =>
        obtain ⟨rfl, hitems'⟩ := hmeans'
        exact ⟨items', rfl, forall₂_kept (meansItems_iff.1 hmeans.2) (meansItems_iff.1 hitems')
          (array.inj heq)⟩
      | _ => cases hmeans'
    | _ => cases heq
  | _ => cases hmeans

end Decode

end Screening
