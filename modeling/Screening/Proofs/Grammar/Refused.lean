import Screening.Proofs.Compile.Stages
import Screening.Proofs.Grammar.Soundness

/-!
# Refused texts

Some faults are about the text of one token: it is no number, no string, no name or no symbol of those
that the token's kind promises. Such a fault is reported for a token only if the token's text really is
none, and at the place of that token. This holds for all tokens, whoever made them.
-/

namespace Screening

/-- The fault is about the text of a token. -/
def SyntaxFault.isAboutText : SyntaxFault → Bool
  | numberOutOfRange _ | numberInvalid _ | malformedString _ | unknownField _ | unknownFunction _
  | unknownComparator _ => true
  | _ => false

/-- The text of the token is not one that its kind promises, and the fault says so. A number is
refused too if it is one, but has no literal. -/
inductive Token.Refused (t : Token) : SyntaxFault → Prop
  | outOfRange : t.kind = .number → Literal.ofNumberText? t.text = none →
      (Number.numeral? t.text.toList).isSome = true → Refused t (.numberOutOfRange t.text)
  | invalid : t.kind = .number → Number.numeral? t.text.toList = none →
      Refused t (.numberInvalid t.text)
  | string : t.kind = .string → Grammar.unquote? t.text = none → Refused t (.malformedString t.text)
  | field : t.kind = .field → (Named.find? t.text : Option Field) = none →
      Refused t (.unknownField t.text)
  | function : t.kind = .aggregateFunction →
      (Named.find? t.text : Option AggregateFunction) = none → Refused t (.unknownFunction t.text)
  | comparator : t.kind = .comparisonOp → Comparator.ofSymbol? t.text = none →
      Refused t (.unknownComparator t.text)

namespace Grammar

variable {s : Setting}

/-! ## Explained errors -/

/-- If the result is an error about a text, it is one of these tokens that is refused, at its place. -/
def Explained {α : Type} (ts : List Token) (result : Except SyntaxError α) : Prop :=
  ∀ e, result = .error e → e.fault.isAboutText = true →
    ∃ t ∈ ts, t.Refused e.fault ∧ e.position = some t.position

namespace Explained

variable {α β : Type} {ts us : List Token}

theorem ok (a : α) : Explained ts (.ok a) := by
  intro e he
  cases he

/-- What comes later is about some of the same tokens. -/
theorem bind {x : Except SyntaxError α} {f : α → Except SyntaxError β} (hx : Explained ts x)
    (hf : ∀ a, x = .ok a → Explained ts (f a)) : Explained ts (x >>= f) := by
  intro e he
  rcases bind_eq_error.1 he with he | ⟨a, ha, he⟩
  · exact hx e he
  · exact hf a ha e he

theorem map {x : Except SyntaxError α} {f : α → β} (hx : Explained ts x) :
    Explained ts (f <$> x) := by
  rw [map_eq_pure_bind]
  exact hx.bind fun a _ => ok (f a)

theorem mono {x : Except SyntaxError α} (h : Explained us x) (hsub : us ⊆ ts) :
    Explained ts x := by
  intro e he habout
  obtain ⟨t, ht, hrefused⟩ := h e he habout
  exact ⟨t, hsub ht, hrefused⟩

/-- Most faults are about no text. -/
theorem fail {fault : SyntaxFault} {position : Nat} (h : fault.isAboutText = false) :
    Explained ts (fail s fault position : Except SyntaxError α) := by
  intro e he habout
  cases he
  rw [h] at habout
  cases habout

theorem refused {t : Token} {fault : SyntaxFault} (ht : t ∈ ts) (h : t.Refused fault) :
    Explained ts (Grammar.fail s fault t.position : Except SyntaxError α) := by
  intro e he _
  cases he
  exact ⟨t, ht, h, rfl⟩

end Explained

/-! ## Single tokens -/

theorem explained_expect {kind wanted ts} : Explained ts (expect s kind wanted ts) := by
  cases ts with
  | nil => exact .fail rfl
  | cons t ts =>
    simp only [expect]
    split
    · exact .ok _
    · exact .fail rfl

theorem explained_comparator {wanted ts} : Explained ts (comparator s wanted ts) := by
  apply explained_expect.bind
  rintro ⟨t, rest⟩ ht
  obtain ⟨rfl, hk⟩ := expect_eq_ok.1 ht
  simp only
  split
  · exact .ok _
  · next hnone => exact .refused List.mem_cons_self (.comparator hk hnone)

theorem explained_fieldOf {t : Token} (hk : t.kind = .field) {ts} (ht : t ∈ ts) :
    Explained ts (fieldOf s t) := by
  simp only [fieldOf]
  split
  · exact .ok _
  · next hnone => exact .refused ht (.field hk hnone)

theorem explained_numberOf {t : Token} (hk : t.kind = .number) {ts} (ht : t ∈ ts) :
    Explained ts (numberOf s t) := by
  simp only [numberOf]
  split
  · exact .ok _
  · next hnone =>
    split
    · next hnumeral => exact .refused ht (.outOfRange hk hnone hnumeral)
    · next hnumeral => exact .refused ht (.invalid hk (by simpa using hnumeral))

theorem explained_argument {function ts} : Explained ts (argument s function ts) := by
  cases ts with
  | nil => exact .fail rfl
  | cons t rest =>
    simp only [argument]
    split
    · next hk => exact (explained_fieldOf hk List.mem_cons_self).map
    · exact .ok _
    · exact .fail rfl

theorem explained_aggregate {t : Token} (hk : t.kind = .aggregateFunction) {ts} :
    Explained (t :: ts) (aggregate s t ts) := by
  simp only [aggregate]
  split
  · next hnone => exact .refused List.mem_cons_self (.function hk hnone)
  · apply (explained_expect.mono (List.subset_cons_self t ts)).bind
    rintro ⟨opening, us⟩ hopening
    obtain ⟨rfl, -⟩ := expect_eq_ok.1 hopening
    have hus : us ⊆ t :: opening :: us := fun u hu => by simp [hu]
    apply (explained_argument.mono hus).bind
    rintro ⟨operand, vs⟩ harg
    obtain ⟨arg, rfl, -⟩ := argument_eq_ok.1 harg
    have hvs : vs ⊆ t :: opening :: arg :: vs := fun u hu => by simp [hu]
    exact (explained_expect.mono hvs).map

/-! ## Productions -/

/-- Every error of the reader is explained, and what it leaves are some of the tokens. -/
structure Explains (reader : Production) : Prop where
  explained : ∀ ts, Explained ts (reader ts)
  subset : ∀ {ts rule rest}, reader ts = .ok (rule, rest) → rest ⊆ ts

/-- The same for every reader of what stands inside. -/
def InnerExplains (inner : InnerReader) : Prop := ∀ kind opened, Explains (inner kind opened)

theorem Sound.subset {reader symbol budget} (h : Sound reader symbol budget) {ts rule rest}
    (hr : reader ts = .ok (rule, rest)) : rest ⊆ ts := by
  obtain ⟨taken, rfl, -⟩ := h hr
  exact List.subset_append_right taken rest

/-! ## Chains -/

theorem explained_condition {op operand} (ho : Explains operand) (ts : List Token) :
    Explained ts (condition s op operand ts) := by
  apply (ho.explained ts).bind
  rintro ⟨rule, rest⟩ -
  simp only
  split
  · exact .ok _
  · exact .fail rfl

theorem condition_subset {op operand} (ho : Explains operand) {ts rule rest}
    (h : condition s op operand ts = .ok (rule, rest)) : rest ⊆ ts :=
  ho.subset (condition_eq_ok.1 h).1

/-- The links of a run are explained one after the other. -/
theorem explained_moreOperands {op operand} (ho : Explains operand) (steps : Nat) :
    ∀ ts, Explained ts (moreOperands s op operand steps ts) := by
  induction steps with
  | zero =>
    intro ts
    exact .ok _
  | succ steps ih =>
    intro ts
    cases ts with
    | nil => exact .ok _
    | cons t us =>
      simp only [moreOperands]
      split
      · have hus : us ⊆ t :: us := List.subset_cons_self t us
        apply ((explained_condition ho us).mono hus).bind
        rintro ⟨rule, vs⟩ hr
        exact ((ih vs).mono (List.Subset.trans (condition_subset ho hr) hus)).map
      · exact .ok _

theorem explained_chain {op operand} (ho : Explains operand) (ts : List Token) :
    Explained ts (chain s op operand ts) := by
  rw [chain_eq]
  apply (ho.explained ts).bind
  rintro ⟨first, rest⟩ hf
  have hrest := ho.subset hf
  cases rest with
  | nil => exact .ok _
  | cons t after =>
    simp only
    split
    · split
      · have hafter : after ⊆ ts := fun u hu => hrest (List.mem_cons_of_mem t hu)
        apply ((explained_condition ho after).mono hafter).bind
        rintro ⟨second, us⟩ hsecond
        have hus := List.Subset.trans (condition_subset ho hsecond) hafter
        exact ((explained_moreOperands ho after.length us).mono hus).map
      · exact .fail rfl
    · exact .ok _

section Productions

variable {inner : InnerReader} {budget : Nat} (hs : InnerSound inner budget)
  (hi : InnerExplains inner)

include hs hi

/-! ## Operands and comparisons -/

theorem explains_atom : Explains (atom s inner) where
  subset := (atom_sound hs).subset
  explained ts := by
    cases ts with
    | nil => exact .fail rfl
    | cons t rest =>
      simp only [atom]
      -- each kind is refused by its own text, and the last four kinds by themselves
      split
      · next hk => exact (explained_numberOf hk List.mem_cons_self).map
      · next hk =>
        split
        · exact .ok _
        · next hnone => exact .refused List.mem_cons_self (.string hk hnone)
      · exact .ok _
      · next hk => exact (explained_fieldOf hk List.mem_cons_self).map
      · exact .ok _
      · next hk => exact explained_aggregate hk
      · have hrest : rest ⊆ t :: rest := List.subset_cons_self t rest
        apply (((hi .group t.position).explained rest).mono hrest).bind
        rintro ⟨rule, us⟩ hin
        have hus := List.Subset.trans ((hi .group t.position).subset hin) hrest
        exact (explained_expect.mono hus).map
      · exact .fail rfl
      · exact .fail rfl
      · exact .fail rfl
      · exact .fail rfl

theorem explains_comparison : Explains (comparison s inner) where
  subset := (comparison_sound hs).subset
  explained ts := by
    have hatom := explains_atom (s := s) hs hi
    apply (hatom.explained ts).bind
    rintro ⟨left, rest⟩ hl
    have hrest := hatom.subset hl
    simp only
    split
    · apply (explained_comparator.mono hrest).bind
      rintro ⟨op, us⟩ hop
      obtain ⟨t, rfl, -⟩ := comparator_eq_ok.1 hop
      exact ((hatom.explained us).mono fun u hu => hrest (List.mem_cons_of_mem t hu)).map
    · exact .ok _

theorem explains_factor : Explains (factor s inner) where
  subset := (factor_sound hs).subset
  explained ts := by
    have hcomparison := explains_comparison (s := s) hs hi
    cases ts with
    | nil => exact hcomparison.explained []
    | cons t rest =>
      simp only [factor]
      split
      · have hrest : rest ⊆ t :: rest := List.subset_cons_self t rest
        exact ((explained_condition (hi .negated t.position) rest).mono hrest).map
      · exact hcomparison.explained (t :: rest)

theorem explains_expression : Explains (expression s inner) where
  subset := (expression_sound hs).subset
  explained := by
    have hfactor := explains_factor (s := s) hs hi
    have hterm : Explains (chain s .and (factor s inner)) :=
      ⟨explained_chain hfactor, (chain_sound (factor_sound hs)).subset⟩
    exact explained_chain hterm

end Productions

/-! ## All rooms -/

theorem innerAt_explains (room : Nat) : InnerExplains (innerAt s room) := by
  induction room with
  | zero => exact fun _ _ => ⟨fun _ => .fail rfl, nofun⟩
  | succ room ih =>
    intro kind opened
    cases kind with
    | group => exact explains_expression (innerAt_sound room) ih
    | negated => exact explains_factor (innerAt_sound room) ih

theorem explained_threshold (ts : List Token) : Explained ts (threshold s ts) := by
  have hs : InnerSound (innerAt s s.maxDepth) s.maxDepth := innerAt_sound s.maxDepth
  have hcomparison := explains_comparison (s := s) hs (innerAt_explains s.maxDepth)
  apply (hcomparison.explained ts).bind
  rintro ⟨rule, rest⟩ -
  simp only
  split
  · exact .ok _
  · exact .fail rfl
  · exact .fail rfl

theorem explained_pattern (ts : List Token) : Explained ts (pattern s ts) := by
  have hs : InnerSound (innerAt s s.maxDepth) s.maxDepth := innerAt_sound s.maxDepth
  have hatom := explains_atom (s := s) hs (innerAt_explains s.maxDepth)
  apply (hatom.explained ts).bind
  rintro ⟨left, rest⟩ hl
  have hrest := hatom.subset hl
  simp only
  split
  · apply (explained_comparator.mono hrest).bind
    rintro ⟨op, us⟩ hop
    obtain ⟨t, rfl, -⟩ := comparator_eq_ok.1 hop
    apply ((hatom.explained us).mono fun u hu => hrest (List.mem_cons_of_mem t hu)).bind
    rintro ⟨right, vs⟩ -
    simp only
    split
    · exact .ok _
    · exact .fail rfl
  · exact .fail rfl

/-- A text is refused only if the token's kind does not promise it, and at the place of the token. -/
theorem refused_of_read {ts e} (h : read s ts = .error e) (habout : e.fault.isAboutText = true) :
    ∃ t ∈ ts, t.Refused e.fault ∧ e.position = some t.position := by
  have hentry : Explained ts (entry s ts) := by
    simp only [entry]
    split
    · exact explained_threshold ts
    · exact explained_pattern ts
    · have hs : InnerSound (innerAt s s.maxDepth) s.maxDepth := innerAt_sound s.maxDepth
      exact (explains_expression hs (innerAt_explains s.maxDepth)).explained ts
  have hread : Explained ts (read s ts) := by
    apply hentry.bind
    rintro ⟨rule, rest⟩ -
    cases rest with
    | nil => exact .ok _
    | cons t rest => exact .fail rfl
  exact hread e h habout

end Grammar

end Screening
