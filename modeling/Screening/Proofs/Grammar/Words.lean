import Screening.Proofs.Grammar.Parts

/-!
# Compared words

A bare word is a string, so a misspelled field on the left of a comparator would be read as one.
Admission looks at the token behind a word, the grammar at the operand as a whole: they differ
where the word stands in parentheses, and only there.
-/

namespace Screening

/-! ## Levels -/

/-- What a token adds to the number of open parentheses. -/
def TokenKind.turn : TokenKind → Int
  | .lparen => 1
  | .rparen => -1
  | _ => 0

namespace Token

/-- The number of parentheses that are open behind the tokens. -/
def level : List Token → Int
  | [] => 0
  | t :: ts => t.kind.turn + level ts

@[simp] theorem level_append (ts us : List Token) : level (ts ++ us) = level ts + level us := by
  induction ts with
  | nil => simp [level]
  | cons t ts ih => simp [level, ih, Int.add_assoc]

/-- Every parenthesis that is opened is closed again, and no other is closed. -/
structure Closed (ts : List Token) : Prop where
  level_eq : level ts = 0
  nonneg : ∀ us vs, ts = us ++ vs → 0 ≤ level us

namespace Closed

theorem nil : Closed [] where
  level_eq := rfl
  nonneg us vs h := by
    obtain ⟨rfl, -⟩ := List.append_eq_nil_iff.1 h.symm
    exact Int.le_refl 0

theorem append {ts us : List Token} (h : Closed ts) (h' : Closed us) : Closed (ts ++ us) where
  level_eq := by rw [level_append, h.level_eq, h'.level_eq, Int.add_zero]
  nonneg vs ws heq := by
    rcases List.append_eq_append_iff.1 heq with ⟨as, rfl, has⟩ | ⟨bs, hbs, -⟩
    · rw [level_append, h.level_eq, Int.zero_add]
      exact h'.nonneg as ws has
    · exact h.nonneg vs bs hbs

theorem single {t : Token} (ht : t.kind.turn = 0) : Closed [t] where
  level_eq := by simp [level, ht]
  nonneg us vs h := by
    rcases List.singleton_eq_append_iff.1 h with ⟨rfl, -⟩ | ⟨rfl, -⟩
    · exact Int.le_refl 0
    · simp [level, ht]

theorem cons {t : Token} {ts : List Token} (ht : t.kind.turn = 0) (h : Closed ts) :
    Closed (t :: ts) :=
  (single ht).append h

theorem group {opening closing : Token} {ts : List Token} (ho : opening.kind = .lparen)
    (h : Closed ts) (hc : closing.kind = .rparen) : Closed (opening :: (ts ++ [closing])) where
  level_eq := by simp [level, ho, hc, h.level_eq, TokenKind.turn]
  nonneg us vs heq := by
    rcases us with _ | ⟨t, us⟩
    · exact Int.le_refl 0
    · obtain ⟨rfl, hrest⟩ := List.cons.inj heq
      -- behind the opening parenthesis there is one open more than within
      have hopen : level (opening :: us) = 1 + level us := by simp [level, ho, TokenKind.turn]
      rw [hopen]
      rcases List.append_eq_append_iff.1 hrest with ⟨as, rfl, has⟩ | ⟨bs, hbs, -⟩
      · rcases List.singleton_eq_append_iff.1 has with ⟨rfl, -⟩ | ⟨rfl, -⟩
        · simp [h.level_eq]
        · simp [h.level_eq, level, hc, TokenKind.turn]
      · have := h.nonneg us bs hbs
        omega

theorem flatMap {α : Type} {f : α → List Token} {as : List α} (h : ∀ a ∈ as, Closed (f a)) :
    Closed (as.flatMap f) := by
  induction as with
  | nil => exact nil
  | cons a as ih =>
    obtain ⟨ha, has⟩ := List.forall_mem_cons.1 h
    exact ha.append (ih has)

end Closed

end Token

namespace Grammar

open Admission Token

theorem Denotes.turn_eq {t v} (h : Denotes t v) : t.kind.turn = 0 := by
  cases h <;> simp [TokenKind.turn, *]

theorem Argues.turn_eq {t operand} (h : Argues t operand) : t.kind.turn = 0 := by
  cases h <;> simp [TokenKind.turn, *]

theorem turn_of_isLogic {op : LogicOp} {t : Token} (h : isLogic op t = true) :
    t.kind.turn = 0 := by
  rw [(isLogic_iff.1 h).1]
  rfl

/-- The parentheses of what a symbol derives match. -/
theorem Derives.closed {symbol d ts rule} (h : Derives symbol d ts rule) : Closed ts := by
  induction h with
  | literal h => exact .single h.turn_eq
  | field hk => exact .single (by rw [hk]; rfl)
  | aggregate hk _ ho ha hc => exact .cons (by rw [hk]; rfl) (.group ho (.single ha.turn_eq) hc)
  | group ho _ hc ih => exact .group ho ih hc
  | operand _ ih => exact ih
  | compare _ ht _ ihl ihr => exact ihl.append (.cons (by rw [ht.kind]; rfl) ihr)
  | plain _ ih => exact ih
  | negation ht _ _ ih => exact .cons (turn_of_isLogic ht) ih
  | single _ ih => exact ih
  | run _ _ hj _ _ ih ihs =>
    exact ih.append (.flatMap fun link hl => .cons (turn_of_isLogic (hj link hl)) (ihs link hl))

/-! ## Words in parentheses -/

/-- A bare word with any number of parentheses around it. -/
inductive Wrapped : List Token → Prop
  | word {t} : t.kind = .identifier → Wrapped [t]
  | group {opening ts closing} : opening.kind = .lparen → Wrapped ts → closing.kind = .rparen →
      Wrapped (opening :: (ts ++ [closing]))

namespace Wrapped

theorem closed {ts} (h : Wrapped ts) : Closed ts := by
  induction h with
  | word hk => exact .single (by rw [hk]; rfl)
  | group ho _ hc ih => exact .group ho ih hc

theorem exists_identifier {ts} (h : Wrapped ts) : ∃ t ∈ ts, t.kind = .identifier := by
  induction h with
  | @word t hk => exact ⟨t, List.mem_singleton_self t, hk⟩
  | group _ _ _ ih =>
    obtain ⟨t, ht, hk⟩ := ih
    exact ⟨t, List.mem_cons_of_mem _ (List.mem_append_left _ ht), hk⟩

/-- There are no operators in parentheses around a word. -/
theorem not_marking {ts} (h : Wrapped ts) : ∀ t ∈ ts, ¬ Marking t.kind := by
  induction h with
  | word hk =>
    refine List.forall_mem_singleton.2 ?_
    simp [Marking, hk]
  | group ho _ hc ih =>
    refine List.forall_mem_cons.2 ⟨ho ▸ not_marking_lparen, List.forall_mem_append.2 ⟨ih, ?_⟩⟩
    exact List.forall_mem_singleton.2 (hc ▸ not_marking_rparen)

end Wrapped

/-- The tokens compare a bare word, in parentheses or not, as the left operand. -/
def ComparesWord (ts : List Token) : Prop :=
  ∃ word t, Wrapped word ∧ t.kind = .comparisonOp ∧ word ++ [t] <:+: ts

theorem ComparesWord.mono {ts us : List Token} (h : ComparesWord ts) (hsub : ts <:+: us) :
    ComparesWord us := by
  obtain ⟨word, t, hword, ht, hin⟩ := h
  exact ⟨word, t, hword, ht, hin.trans hsub⟩

/-! ## From the tree to the tokens -/

/-- Without quotes in the text a string is a word. -/
theorem Denotes.identifier {t s} (h : Denotes t (.string s)) (ht : t.kind ≠ .string) :
    t.kind = .identifier := by
  generalize hv : Literal.string s = v at h
  cases h with
  | number _ hn => exact absurd (hv ▸ hn) Literal.ofNumberText?_ne_string
  | string hk => exact absurd hk ht
  | bool => cases hv
  | word hk => exact hk

/-- The tokens of a string literal are a word with any number of parentheses around it. -/
theorem Derives.wrapped {symbol d ts rule s} (h : Derives symbol d ts rule)
    (hrule : rule = .literal (.string s)) (hts : ∀ t ∈ ts, t.kind ≠ .string) : Wrapped ts := by
  induction h with
  | literal h =>
    obtain rfl := Rule.literal.inj hrule
    exact .word (h.identifier (hts _ (List.mem_singleton_self _)))
  | group ho _ hc ih =>
    obtain ⟨-, hts⟩ := List.forall_mem_cons.1 hts
    exact .group ho (ih hrule (List.forall_mem_append.1 hts).1) hc
  | operand _ ih => exact ih hrule hts
  | plain _ ih => exact ih hrule hts
  | single _ ih => exact ih hrule hts
  | _ => cases hrule

/-- The rule compares a string as the left operand somewhere. -/
def ComparesString (rule : Rule) : Prop :=
  ∃ op s right, .comparison op (.literal (.string s)) right ∈ rule.nodes

theorem comparesString_comparison {op : Comparator} {left right : Rule} :
    ComparesString (.comparison op left right) ↔
      (∃ s, left = .literal (.string s)) ∨ ComparesString left ∨ ComparesString right := by
  constructor
  · intro h
    obtain ⟨op', s, right', hn⟩ := h
    rcases Rule.mem_nodes_comparison.1 hn with hn | hn | hn
    · cases hn
      exact .inl ⟨s, rfl⟩
    · exact .inr (.inl ⟨op', s, right', hn⟩)
    · exact .inr (.inr ⟨op', s, right', hn⟩)
  · intro h
    rcases h with ⟨s, rfl⟩ | ⟨op', s, right', hn⟩ | ⟨op', s, right', hn⟩
    · exact ⟨op, s, right, Rule.mem_nodes_self _⟩
    · exact ⟨op', s, right', Rule.mem_nodes_comparison.2 (.inr (.inl hn))⟩
    · exact ⟨op', s, right', Rule.mem_nodes_comparison.2 (.inr (.inr hn))⟩

theorem comparesString_negation {operand : Rule} :
    ComparesString (.negation operand) ↔ ComparesString operand := by
  simp [ComparesString, Rule.mem_nodes_negation]

theorem comparesString_run {op : Junction} {first : Rule} {second : Link} {more : List Link} :
    ComparesString (.junction op first second.rule (more.map Link.rule)) ↔
      ComparesString first ∨ ∃ link ∈ second :: more, ComparesString link.rule := by
  constructor
  · intro h
    obtain ⟨op', s, right, hn⟩ := h
    rcases mem_nodes_run.1 hn with hn | hn | ⟨link, hl, hn⟩
    · cases hn
    · exact .inl ⟨op', s, right, hn⟩
    · exact .inr ⟨link, hl, op', s, right, hn⟩
  · intro h
    rcases h with ⟨op', s, right, hn⟩ | ⟨link, hl, op', s, right, hn⟩
    · exact ⟨op', s, right, mem_nodes_run.2 (.inr (.inl hn))⟩
    · exact ⟨op', s, right, mem_nodes_run.2 (.inr (.inr ⟨link, hl, hn⟩))⟩

/-- A rule without nodes below its root compares nothing. -/
theorem not_comparesString {rule : Rule} (h : rule.nodes = [rule])
    (hc : rule.isCondition = false) : ¬ ComparesString rule := by
  rintro ⟨op, s, right, hn⟩
  rw [h] at hn
  rw [← List.mem_singleton.1 hn] at hc
  cases hc

/-- A string on the left of a comparator was a word in front of it. -/
theorem Derives.comparesWord {symbol d ts rule} (h : Derives symbol d ts rule)
    (hts : ∀ t ∈ ts, t.kind ≠ .string) (hrule : ComparesString rule) : ComparesWord ts := by
  induction h with
  | literal => exact absurd hrule (not_comparesString rfl rfl)
  | field => exact absurd hrule (not_comparesString rfl rfl)
  | aggregate => exact absurd hrule (not_comparesString rfl rfl)
  | @group d opening ts closing rule _ _ _ ih =>
    obtain ⟨-, hts⟩ := List.forall_mem_cons.1 hts
    refine (ih (List.forall_mem_append.1 hts).1 hrule).mono ?_
    exact List.infix_cons (List.prefix_append ts [closing]).isInfix
  | operand _ ih => exact ih hts hrule
  | @compare d ls t rs op left right hl ht _ ihl ihr =>
    obtain ⟨hls, hrs⟩ := List.forall_mem_append.1 hts
    rcases comparesString_comparison.1 hrule with ⟨s, rfl⟩ | hleft | hright
    · refine ⟨ls, t, hl.wrapped rfl hls, ht.kind, [], rs, ?_⟩
      simp
    · exact (ihl hls hleft).mono (List.prefix_append ls (t :: rs)).isInfix
    · refine (ihr (List.forall_mem_cons.1 hrs).2 hright).mono ?_
      exact (List.suffix_cons t rs).isInfix.trans (List.suffix_append ls (t :: rs)).isInfix
  | plain _ ih => exact ih hts hrule
  | @negation d t ts _ _ _ _ ih =>
    refine (ih (List.forall_mem_cons.1 hts).2 (comparesString_negation.1 hrule)).mono ?_
    exact (List.suffix_cons t ts).isInfix
  | single _ ih => exact ih hts hrule
  | @run op d ts first second more _ _ _ _ _ ih ihs =>
    obtain ⟨hfirst, hlinks⟩ := List.forall_mem_append.1 hts
    rcases comparesString_run.1 hrule with hrule | ⟨link, hl, hrule⟩
    · exact (ih hfirst hrule).mono (List.prefix_append ts _).isInfix
    · have hspan : link.span <:+: (second :: more).flatMap Link.span := by
        rw [List.flatMap_def]
        exact List.infix_of_mem_flatten (List.mem_map_of_mem hl)
      have htokens : ∀ t ∈ link.tokens, t.kind ≠ .string := fun t ht =>
        hlinks t (hspan.subset (List.mem_cons_of_mem _ ht))
      refine (ihs link hl htokens hrule).mono ?_
      exact (List.suffix_cons link.joint link.tokens).isInfix.trans
        (hspan.trans (List.suffix_append ts _).isInfix)

/-! ## From the tokens to the tree -/

theorem Wrapped.ne_of_marking {word : List Token} (h : Wrapped word) {t : Token}
    (ht : Marking t.kind) : t ∉ word :=
  fun hmem => h.not_marking t hmem ht

theorem marking_of_isLogic {op : LogicOp} {t : Token} (h : isLogic op t = true) :
    Marking t.kind :=
  .inr (.inl (isLogic_iff.1 h).1)

/-- An atom of one token that is a bare word is a string. -/
theorem Denotes.string_of_identifier {t v} (h : Denotes t v) (ht : t.kind = .identifier) :
    ∃ s, v = .string s := by
  cases h with
  | number hk => cases hk.symm.trans ht
  | string hk => cases hk.symm.trans ht
  | bool hk => cases hk.symm.trans ht
  | word => exact ⟨_, rfl⟩

/-- A word with any number of parentheses around it stands for a string. -/
theorem Derives.string_of_wrapped {symbol d ts rule} (h : Derives symbol d ts rule)
    (hts : Wrapped ts) : ∃ s, rule = .literal (.string s) := by
  induction h with
  | literal h =>
    obtain ⟨t, ht, hk⟩ := hts.exists_identifier
    obtain rfl := List.mem_singleton.1 ht
    obtain ⟨s, rfl⟩ := h.string_of_identifier hk
    exact ⟨s, rfl⟩
  | field hk =>
    obtain ⟨t, ht, hword⟩ := hts.exists_identifier
    rw [List.mem_singleton.1 ht, hk] at hword
    cases hword
  | aggregate hk => exact absurd List.mem_cons_self (hts.ne_of_marking (hk ▸ .inr (.inr rfl)))
  | group _ _ _ ih =>
    generalize heq : _ :: (_ ++ [_]) = us at hts
    cases hts with
    | word => simp at heq
    | group _ hinner _ =>
      obtain ⟨-, hrest⟩ := List.cons.inj heq
      obtain ⟨rfl, -⟩ := List.append_inj' hrest rfl
      exact ih hinner
  | operand _ ih => exact ih hts
  | compare _ ht =>
    exact absurd (List.mem_append_right _ List.mem_cons_self)
      (hts.ne_of_marking (ht.kind ▸ .inl rfl))
  | plain _ ih => exact ih hts
  | negation ht =>
    exact absurd List.mem_cons_self (hts.ne_of_marking (marking_of_isLogic ht))
  | single _ ih => exact ih hts
  | @run _ _ _ _ second _ _ _ hj =>
    have hjoint := hts.ne_of_marking (marking_of_isLogic (hj second List.mem_cons_self))
    exact absurd (List.mem_append_right _ List.mem_cons_self) hjoint

/-- An atom that ends in a wrapped word is that word, in further parentheses perhaps. -/
theorem Derives.string_of_suffix {d ts rule word} (h : Derives .atom d ts rule)
    (hword : Wrapped word) (hsuffix : word <:+ ts) : ∃ s, rule = .literal (.string s) := by
  obtain ⟨before, rfl⟩ := hsuffix
  generalize hts : before ++ word = ts at h
  obtain ⟨t, ht, hk⟩ := hword.exists_identifier
  have hmem : t ∈ ts := hts ▸ List.mem_append_right before ht
  cases h with
  | literal h =>
    obtain rfl := List.mem_singleton.1 hmem
    obtain ⟨s, rfl⟩ := h.string_of_identifier hk
    exact ⟨s, rfl⟩
  | field hfield =>
    rw [List.mem_singleton.1 hmem, hfield] at hk
    cases hk
  | aggregate hf _ ho ha hc =>
    -- the argument of an aggregate is no bare word
    simp only [List.mem_cons, List.not_mem_nil, or_false] at hmem
    rcases hmem with rfl | rfl | rfl | rfl
    · cases hf.symm.trans hk
    · cases ho.symm.trans hk
    · cases ha with
      | field hfield => cases hfield.symm.trans hk
      | wildcard hwild => cases hwild.symm.trans hk
    · cases hc.symm.trans hk
  | @group _ opening ts closing _ _ hd hc =>
    rw [← List.cons_append] at hts
    cases hword with
    | word hword =>
      obtain ⟨-, hlast⟩ := List.append_inj' hts rfl
      obtain rfl := List.singleton_inj.1 hlast
      cases hword.symm.trans hc
    | @group opening' ts' closing' ho' hinner hc' =>
      rw [← List.cons_append, ← List.append_assoc] at hts
      obtain ⟨hinit, -⟩ := List.append_inj' hts rfl
      rcases before with _ | ⟨t, before⟩
      · obtain ⟨-, rfl⟩ := List.cons.inj hinit
        exact hd.string_of_wrapped hinner
      · -- else a parenthesis of the word would be one that the group closes
        have hts : before ++ opening' :: ts' = ts := (List.cons.inj hinit).2
        have hbefore := hd.closed.nonneg before _ hts.symm
        have hlevel := hd.closed.level_eq
        rw [← hts, level_append, level, hinner.closed.level_eq, ho', TokenKind.turn] at hlevel
        omega

/-- Tokens without the separator stand on one side of it. -/
theorem infix_sides {ts us vs : List Token} {t : Token} (h : ts <:+: us ++ t :: vs)
    (ht : t ∉ ts) : ts <:+: us ∨ ts <:+: vs := by
  rcases List.infix_append_iff.1 h with h | h | ⟨ls, rs, rfl, hls, hrs⟩
  · exact .inl h
  · rcases List.infix_cons_iff.1 h with h | h
    · rcases List.prefix_cons_iff.1 h with rfl | ⟨rest, rfl, -⟩
      · exact .inl List.nil_infix
      · exact absurd List.mem_cons_self ht
    · exact .inr h
  · rcases List.prefix_cons_iff.1 hrs with rfl | ⟨rest, rfl, -⟩
    · rw [List.append_nil]
      exact .inl hls.isInfix
    · exact absurd (List.mem_append_right _ List.mem_cons_self) ht

/-- Tokens without the operator of a run stand in one of its operands. -/
theorem infix_links {ts us : List Token} {links : List Link}
    (h : ts <:+: us ++ links.flatMap Link.span) (ht : ∀ link ∈ links, link.joint ∉ ts) :
    ts <:+: us ∨ ∃ link ∈ links, ts <:+: link.tokens := by
  induction links generalizing us with
  | nil =>
    rw [List.flatMap_nil, List.append_nil] at h
    exact .inl h
  | cons link links ih =>
    obtain ⟨hlink, hlinks⟩ := List.forall_mem_cons.1 ht
    rcases infix_sides h hlink with h | h
    · exact .inl h
    · rcases ih h hlinks with h | ⟨other, ho, h⟩
      · exact .inr ⟨link, List.mem_cons_self, h⟩
      · exact .inr ⟨other, List.mem_cons_of_mem _ ho, h⟩

/-- A word and the comparator behind it hold no logical operator. -/
theorem joint_notMem {word : List Token} {t joint : Token} {op : LogicOp} (hword : Wrapped word)
    (ht : t.kind = .comparisonOp) (hj : isLogic op joint = true) : joint ∉ word ++ [t] := by
  intro hmem
  rcases List.mem_append.1 hmem with hmem | hmem
  · exact hword.ne_of_marking (marking_of_isLogic hj) hmem
  · have hk := (isLogic_iff.1 hj).1
    rw [List.mem_singleton.1 hmem, ht] at hk
    cases hk

/-- A word with a comparator behind it stands within a group, not across its parentheses. -/
theorem infix_of_infix_group {word ts : List Token} {t opening closing : Token}
    (hword : Wrapped word) (ht : t.kind = .comparisonOp) (ho : opening.kind = .lparen)
    (hts : Closed ts) (hc : closing.kind = .rparen)
    (h : word ++ [t] <:+: opening :: (ts ++ [closing])) : word ++ [t] <:+: ts := by
  have hne : t ≠ closing := by
    rintro rfl
    cases ht.symm.trans hc
  rcases List.infix_cons_iff.1 h with h | h
  · -- the word would have to close the group before it ends
    obtain ⟨after, hafter⟩ := h
    cases hword with
    | word hk =>
      obtain ⟨rfl, -⟩ := List.cons.inj hafter
      cases hk.symm.trans ho
    | @group _ us closing' _ hinner hc' =>
      have hrest : us ++ [closing'] ++ (t :: after) = ts ++ [closing] := by
        simpa using (List.cons.inj hafter).2
      rcases List.append_eq_append_iff.1 hrest with ⟨as, hts', -⟩ | ⟨bs, -, hbs⟩
      · have hnonneg := hts.nonneg _ as hts'
        rw [level_append, hinner.closed.level_eq, level, hc', TokenKind.turn, level] at hnonneg
        omega
      · rcases List.singleton_eq_append_iff.1 hbs with ⟨-, hbs⟩ | ⟨-, hbs⟩
        · exact absurd (List.cons.inj hbs).1 hne
        · cases hbs
  · rcases List.infix_concat_iff.1 h with h | h
    · obtain ⟨before, hbefore⟩ := h
      rw [← List.append_assoc] at hbefore
      exact absurd (List.singleton_inj.1 (List.append_inj' hbefore rfl).2) hne
    · exact h

/-- Beside a comparator, a word with a comparator behind it stands on one side, or ends the left
side. -/
theorem infix_comparison {word ls rs : List Token} {t t' : Token} (hword : Wrapped word)
    (ht' : t'.kind = .comparisonOp) (h : word ++ [t] <:+: ls ++ t' :: rs) :
    word ++ [t] <:+: ls ∨ word ++ [t] <:+: rs ∨ word <:+ ls := by
  have hmem : t' ∉ word := hword.ne_of_marking (ht' ▸ .inl rfl)
  obtain ⟨before, after, h⟩ := h
  rw [← List.append_assoc, List.append_assoc _ [t] after, List.singleton_append] at h
  rcases List.append_eq_append_iff.1 h with ⟨as, hls, has⟩ | ⟨bs, hbs, hrs⟩
  · rcases List.cons_eq_append_iff.1 has with ⟨rfl, -⟩ | ⟨as, rfl, rfl⟩
    · rw [List.append_nil] at hls
      exact .inr (.inr ⟨before, hls.symm⟩)
    · exact .inl ⟨before, as, by simp [hls]⟩
  · rcases List.cons_eq_append_iff.1 hrs with ⟨rfl, -⟩ | ⟨bs, rfl, rfl⟩
    · rw [List.append_nil] at hbs
      exact .inr (.inr ⟨before, hbs⟩)
    · -- the word begins behind the other comparator, for it does not hold it
      rcases List.append_eq_append_iff.1 hbs with ⟨as, -, rfl⟩ | ⟨cs, -, hcs⟩
      · exact absurd (List.mem_append_right as List.mem_cons_self) hmem
      · rcases List.cons_eq_append_iff.1 hcs with ⟨-, rfl⟩ | ⟨cs, -, rfl⟩
        · exact absurd List.mem_cons_self hmem
        · exact .inr (.inl ⟨cs, after, by simp⟩)

/-- Nothing but a comparison has a comparator among its tokens. -/
theorem Derives.not_comparesWord {symbol d ts rule} (h : Derives symbol d ts rule)
    (hnodes : rule.nodes = [rule]) (hmark : rule.mark ≠ some .comparisonOp) :
    ¬ ComparesWord ts := by
  intro hts
  obtain ⟨word, t, -, ht, hin⟩ := hts
  have hmem : t ∈ ts := hin.subset (List.mem_append_right word (List.mem_singleton_self t))
  obtain ⟨node, hn, hm⟩ := (h.exists_kind_iff (.inl rfl)).1 ⟨t, hmem, ht⟩
  rw [hnodes] at hn
  rw [List.mem_singleton.1 hn] at hm
  exact hmark hm

/-- A word in front of a comparator becomes a string on its left. -/
theorem Derives.comparesString {symbol d ts rule} (h : Derives symbol d ts rule)
    (hts : ComparesWord ts) : ComparesString rule := by
  induction h with
  | literal h =>
    have hd := @Derives.literal 0 _ _ h
    exact absurd hts (hd.not_comparesWord rfl (by simp [Rule.mark]))
  | field hk ht =>
    have hd := @Derives.field 0 _ _ hk ht
    exact absurd hts (hd.not_comparesWord rfl (by simp [Rule.mark]))
  | aggregate hk ht ho ha hc =>
    have hd := @Derives.aggregate 0 _ _ _ _ _ _ hk ht ho ha hc
    exact absurd hts (hd.not_comparesWord rfl (by simp [Rule.mark]))
  | group ho hd hc ih =>
    obtain ⟨word, t, hword, ht, hin⟩ := hts
    exact ih ⟨word, t, hword, ht, infix_of_infix_group hword ht ho hd.closed hc hin⟩
  | operand _ ih => exact ih hts
  | compare hl ht' _ ihl ihr =>
    obtain ⟨word, t, hword, ht, hin⟩ := hts
    rw [comparesString_comparison]
    rcases infix_comparison hword ht'.kind hin with h | h | h
    · exact .inr (.inl (ihl ⟨word, t, hword, ht, h⟩))
    · exact .inr (.inr (ihr ⟨word, t, hword, ht, h⟩))
    · exact .inl (hl.string_of_suffix hword h)
  | plain _ ih => exact ih hts
  | @negation _ t' ts _ ht' _ _ ih =>
    obtain ⟨word, t, hword, ht, hin⟩ := hts
    rw [comparesString_negation]
    have hjoint := joint_notMem hword ht ht'
    rcases @infix_sides _ [] _ _ hin hjoint with h | h
    · simp at h
    · exact ih ⟨word, t, hword, ht, h⟩
  | single _ ih => exact ih hts
  | run _ _ hj _ _ ih ihs =>
    obtain ⟨word, t, hword, ht, hin⟩ := hts
    rw [comparesString_run]
    have hjoints := fun link hl => joint_notMem hword ht (hj link hl)
    rcases infix_links hin hjoints with h | ⟨link, hl, h⟩
    · exact .inl (ih ⟨word, t, hword, ht, h⟩)
    · exact .inr ⟨link, hl, ihs link hl ⟨word, t, hword, ht, h⟩⟩

/-! ## What admission lets through -/

/-- Among tokens without unknown fields no bare word stands directly in front of a comparator. -/
theorem kind_ne_of_misnamedTexts {x t : Token} {ts : List Token} (hx : x.kind = .identifier)
    (hin : [x, t] <:+: ts) :
    ∀ {before}, misnamedTexts before ts = [] → t.kind ≠ .comparisonOp := by
  obtain ⟨front, behind, rfl⟩ := hin
  induction front with
  | nil =>
    intro before h ht
    simp [misnamedTexts, misnamed, hx, ht] at h
  | cons u front ih =>
    intro before h
    simp only [List.cons_append, misnamedTexts] at h
    split at h
    · cases h
    · exact ih h

/-- A bare word in parentheses stands directly in front of a comparator. -/
def HidesWord (ts : List Token) : Prop :=
  ∃ opening word closing t, opening.kind = .lparen ∧ Wrapped word ∧ closing.kind = .rparen ∧
    t.kind = .comparisonOp ∧ opening :: (word ++ [closing]) ++ [t] <:+: ts

/-- Where no field is unknown, a word in front of a comparator is in parentheses. -/
theorem comparesWord_iff {ts : List Token} (hnames : unknownFields ts = []) :
    ComparesWord ts ↔ HidesWord ts := by
  constructor
  · intro h
    obtain ⟨_, t, hword, ht, hin⟩ := h
    cases hword with
    | word hk =>
      exact absurd ht (kind_ne_of_misnamedTexts hk hin (misnamedTexts_of_unknownFields hnames))
    | group ho hword hc => exact ⟨_, _, _, t, ho, hword, hc, ht, hin⟩
  · intro h
    obtain ⟨opening, word, closing, t, ho, hword, hc, ht, hin⟩ := h
    exact ⟨_, t, .group ho hword hc, ht, hin⟩

/-- Admitted tokens without strings compare a string on the left exactly if they hide a word. -/
theorem Generates.comparesString_iff {category d ts rule} (h : Generates category d ts rule)
    (hnames : unknownFields ts = []) (hts : ∀ t ∈ ts, t.kind ≠ .string) :
    ComparesString rule ↔ HidesWord ts := by
  obtain ⟨symbol, hd⟩ := h.derives
  rw [← comparesWord_iff hnames]
  exact ⟨hd.comparesWord hts, hd.comparesString⟩

end Grammar

end Screening
