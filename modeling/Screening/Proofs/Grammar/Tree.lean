import Screening.Admission
import Screening.Proofs.Grammar.Derivation
import Screening.Proofs.Rule.Nodes

/-!
# Trees of derivations

What can be said of a rule because it was derived. Every node has a derivation of its own from
some of the tokens, so rules that are derived are well-formed; and an operator or an aggregate
occurs in the tree exactly if its token occurs in the text.
-/

namespace Screening.Grammar

/-! ## Parts -/

/-- The rule has a derivation from some of the tokens. -/
def DerivedWithin (ts : List Token) (rule : Rule) : Prop :=
  ∃ symbol d us, us ⊆ ts ∧ Derives symbol d us rule

theorem Derives.within {symbol d ts rule} (h : Derives symbol d ts rule) : DerivedWithin ts rule :=
  ⟨symbol, d, ts, List.Subset.refl ts, h⟩

theorem DerivedWithin.mono {ts us rule} (h : DerivedWithin ts rule) (hsub : ts ⊆ us) :
    DerivedWithin us rule := by
  obtain ⟨symbol, d, vs, hvs, hd⟩ := h
  exact ⟨symbol, d, vs, List.Subset.trans hvs hsub, hd⟩

/-- The nodes of a run are its own node and those of its first operand and of its links. -/
theorem mem_nodes_run {op : Junction} {first node : Rule} {second : Link} {more : List Link} :
    node ∈ (Rule.junction op first second.rule (more.map Link.rule)).nodes ↔
      node = .junction op first second.rule (more.map Link.rule) ∨ node ∈ first.nodes ∨
        ∃ link ∈ second :: more, node ∈ link.rule.nodes := by
  simp [Rule.mem_nodes_junction]

/-- Every node of a derived rule is derived itself, from some of the tokens. -/
theorem Derives.of_mem_nodes {symbol d ts rule} (h : Derives symbol d ts rule) {node : Rule}
    (hn : node ∈ rule.nodes) : DerivedWithin ts node := by
  induction h with
  | literal h =>
    obtain rfl := List.mem_singleton.1 hn
    exact (@Derives.literal 0 _ _ h).within
  | field hk ht =>
    obtain rfl := List.mem_singleton.1 hn
    exact (@Derives.field 0 _ _ hk ht).within
  | aggregate hk ht ho ha hc =>
    obtain rfl := List.mem_singleton.1 hn
    exact (@Derives.aggregate 0 _ _ _ _ _ _ hk ht ho ha hc).within
  | group _ _ _ ih =>
    exact (ih hn).mono (List.subset_cons_of_subset _ (List.subset_append_left _ _))
  | operand _ ih => exact ih hn
  | compare hl ht hr ihl ihr =>
    rcases Rule.mem_nodes_comparison.1 hn with rfl | hn | hn
    · exact (Derives.compare hl ht hr).within
    · exact (ihl hn).mono (List.subset_append_left _ _)
    · exact (ihr hn).mono (List.subset_append_of_subset_right _ (List.subset_cons_self _ _))
  | plain _ ih => exact ih hn
  | negation ht h hc ih =>
    rcases Rule.mem_nodes_negation.1 hn with rfl | hn
    · exact (Derives.negation ht h hc).within
    · exact (ih hn).mono (List.subset_cons_self _ _)
  | single _ ih => exact ih hn
  | run h hc hj hs hcs ih ihs =>
    rcases mem_nodes_run.1 hn with rfl | hn | ⟨link, hl, hn⟩
    · exact (Derives.run h hc hj hs hcs).within
    · exact (ih hn).mono (List.subset_append_left _ _)
    · -- the tokens of the link are among all tokens
      refine (ihs link hl hn).mono fun t ht => List.mem_append_right _ ?_
      exact List.mem_flatMap.2 ⟨link, hl, List.mem_cons_of_mem _ ht⟩

/-! ## Roots -/

/-- No symbol derives a star. -/
theorem Derives.ne_wildcard {symbol d ts rule} (h : Derives symbol d ts rule) :
    rule ≠ .wildcard := by
  induction h with
  | group _ _ _ ih => exact ih
  | operand _ ih => exact ih
  | plain _ ih => exact ih
  | single _ ih => exact ih
  | _ => exact Rule.noConfusion

/-- A literal is denoted by a token. -/
theorem Derives.exists_denotes {symbol d ts rule v} (h : Derives symbol d ts rule)
    (hv : rule = .literal v) : ∃ t ∈ ts, Denotes t v := by
  induction h with
  | @literal _ t _ h =>
    cases hv
    exact ⟨t, List.mem_singleton_self t, h⟩
  | group _ _ _ ih =>
    obtain ⟨t, ht, h⟩ := ih hv
    exact ⟨t, List.mem_cons_of_mem _ (List.mem_append_left _ ht), h⟩
  | operand _ ih => exact ih hv
  | plain _ ih => exact ih hv
  | single _ ih => exact ih hv
  | _ => cases hv

/-- The operands of a logical operator are conditions. -/
theorem Derives.isCondition_of_logical? {symbol d ts rule op operands}
    (h : Derives symbol d ts rule) (hl : rule.logical? = some (op, operands)) :
    ∀ operand ∈ operands, operand.isCondition = true := by
  induction h with
  | group _ _ _ ih => exact ih hl
  | operand _ ih => exact ih hl
  | plain _ ih => exact ih hl
  | negation _ _ hc =>
    cases hl
    exact List.forall_mem_singleton.2 hc
  | single _ ih => exact ih hl
  | run _ hc _ _ hcs =>
    cases hl
    rw [← List.map_cons (f := Link.rule)]
    exact List.forall_mem_cons.2 ⟨hc, List.forall_mem_map.2 hcs⟩
  | _ => cases hl

theorem Denotes.canonical {t v} (h : Denotes t v) : v.Canonical := by
  cases h with
  | number _ hv => exact Literal.canonical_of_ofNumberText? hv
  | _ => trivial

/-- Every derived rule is well-formed. -/
theorem Derives.wellFormed {symbol d ts rule} (h : Derives symbol d ts rule) :
    rule.WellFormed where
  wildcard hw := by
    obtain ⟨_, _, _, -, hd⟩ := h.of_mem_nodes hw
    exact hd.ne_wildcard rfl
  arity _ _ _ _ hl := Rule.takes_of_logical? hl
  operands node hn op operands hl := by
    obtain ⟨_, _, _, -, hd⟩ := h.of_mem_nodes hn
    exact hd.isCondition_of_logical? hl
  literals value hv := by
    obtain ⟨_, _, _, -, hd⟩ := h.of_mem_nodes hv
    obtain ⟨t, -, ht⟩ := hd.exists_denotes rfl
    exact ht.canonical

/-! ## Marks -/

/-- The kinds of token that belong to a node rather than to its place: a comparator, a logical
operator and an aggregate function. -/
def Marking (kind : TokenKind) : Prop :=
  kind = .comparisonOp ∨ kind = .logicOp ∨ kind = .aggregateFunction

theorem has_iff {kind : TokenKind} {ts : List Token} :
    Admission.has kind ts = true ↔ ∃ t ∈ ts, t.kind = kind := by
  simp [Admission.has]

theorem Denotes.not_marking {t v} (h : Denotes t v) : ¬ Marking t.kind := by
  cases h <;> simp [Marking, *]

theorem Argues.not_marking {t operand} (h : Argues t operand) : ¬ Marking t.kind := by
  cases h <;> simp [Marking, *]

theorem not_marking_lparen : ¬ Marking .lparen := by simp [Marking]

theorem not_marking_rparen : ¬ Marking .rparen := by simp [Marking]

theorem kind_ne {t : Token} {kind : TokenKind} (hk : Marking kind) (ht : ¬ Marking t.kind) :
    t.kind ≠ kind := by
  rintro rfl
  exact ht hk

/-- The tokens hold a marking kind exactly if a node of the rule has it as its mark. -/
theorem Derives.exists_kind_iff {symbol d ts rule kind} (h : Derives symbol d ts rule)
    (hk : Marking kind) :
    (∃ t ∈ ts, t.kind = kind) ↔ ∃ node ∈ rule.nodes, node.mark = some kind := by
  induction h with
  | literal h =>
    have := kind_ne hk h.not_marking
    simp [Rule.nodes, Rule.mark, this]
  | @field _ t _ ht =>
    have := kind_ne hk (t := t) (by simp [Marking, ht])
    simp [Rule.nodes, Rule.mark, this]
  | aggregate ht _ ho ha hc =>
    have harg := kind_ne hk ha.not_marking
    have hopening := kind_ne hk (ho ▸ not_marking_lparen)
    have hclosing := kind_ne hk (hc ▸ not_marking_rparen)
    simp [Rule.nodes, Rule.mark, ht, harg, hopening, hclosing]
  | group ho _ hc ih =>
    have hopening := kind_ne hk (ho ▸ not_marking_lparen)
    have hclosing := kind_ne hk (hc ▸ not_marking_rparen)
    simpa [or_and_right, exists_or, hopening, hclosing] using ih
  | operand _ ih => exact ih
  | compare _ ht _ ihl ihr =>
    simp only [List.mem_append, List.mem_cons, Rule.mem_nodes_comparison, or_and_right, exists_or,
      exists_eq_left, ihl, ihr, ht.kind, Rule.mark, Option.some.injEq]
    exact or_left_comm
  | plain _ ih => exact ih
  | negation ht _ _ ih =>
    simp only [List.mem_cons, Rule.mem_nodes_negation, or_and_right, exists_or, exists_eq_left, ih,
      (isLogic_iff.1 ht).1, Rule.mark, Option.some.injEq]
  | single _ ih => exact ih
  | @run _ _ _ _ second more _ _ hj _ _ ih ihs =>
    constructor
    · intro hx
      obtain ⟨t, ht, htk⟩ := hx
      rcases List.mem_append.1 ht with ht | ht
      · obtain ⟨node, hn, hm⟩ := ih.1 ⟨t, ht, htk⟩
        exact ⟨node, mem_nodes_run.2 (.inr (.inl hn)), hm⟩
      · obtain ⟨link, hl, ht⟩ := List.mem_flatMap.1 ht
        rcases List.mem_cons.1 ht with rfl | ht
        · -- the operator marks the junction itself
          rw [(isLogic_iff.1 (hj link hl)).1] at htk
          exact ⟨_, Rule.mem_nodes_self _, congrArg some htk⟩
        · obtain ⟨node, hn, hm⟩ := (ihs link hl).1 ⟨t, ht, htk⟩
          exact ⟨node, mem_nodes_run.2 (.inr (.inr ⟨link, hl, hn⟩)), hm⟩
    · intro hx
      obtain ⟨node, hn, hm⟩ := hx
      rcases mem_nodes_run.1 hn with rfl | hn | ⟨link, hl, hn⟩
      · refine ⟨second.joint, List.mem_append_right _ List.mem_cons_self, ?_⟩
        rw [(isLogic_iff.1 (hj second List.mem_cons_self)).1]
        exact Option.some.inj hm
      · obtain ⟨t, ht, htk⟩ := ih.2 ⟨node, hn, hm⟩
        exact ⟨t, List.mem_append_left _ ht, htk⟩
      · obtain ⟨t, ht, htk⟩ := (ihs link hl).2 ⟨node, hn, hm⟩
        refine ⟨t, List.mem_append_right _ ?_, htk⟩
        exact List.mem_flatMap.2 ⟨link, hl, List.mem_cons_of_mem _ ht⟩

end Screening.Grammar
