import Screening.Proofs.Grammar.Admitted
import Screening.Proofs.Grammar.Binding
import Screening.Proofs.Token.Seams

/-!
# Parts of larger rules

Tokens that are admitted and derived as a rule can be put in parentheses and joined with others.
Where they stand does not matter to a derivation, and in parentheses nothing that stands around
them matters to their admission.
-/

namespace Screening

namespace Admission

/-! ## Names without aggregates -/

/-- No token stands for an unknown field because of what it is or what follows it. -/
def Known : List Token → Prop
  | [] => True
  | t :: rest => misnamed (none, none) t rest = false ∧ Known rest

/-- What stands in front of a token matters only behind the name of an aggregate function. -/
theorem misnamed_eq {before : Option TokenKind × Option TokenKind}
    (hb : before.1 ≠ some .aggregateFunction) (t : Token) (rest : List Token) :
    misnamed before t rest = misnamed (none, none) t rest := by
  have hne : (before == (some .aggregateFunction, some .lparen)) = false := by
    rw [beq_eq_false_iff_ne]
    intro h
    exact hb (congrArg Prod.fst h)
  have hnone :
      ((none, none) == (some TokenKind.aggregateFunction, some TokenKind.lparen)) = false := rfl
  rw [misnamed, misnamed, hne, hnone]

theorem misnamedTexts_eq_nil_iff {ts : List Token} (hts : ∀ t ∈ ts, t.kind ≠ .aggregateFunction) :
    ∀ before : Option TokenKind × Option TokenKind, before.1 ≠ some .aggregateFunction →
      before.2 ≠ some .aggregateFunction → (misnamedTexts before ts = [] ↔ Known ts) := by
  induction ts with
  | nil => simp [misnamedTexts, Known]
  | cons t rest ih =>
    intro before h1 h2
    obtain ⟨ht, hrest⟩ := List.forall_mem_cons.1 hts
    have hlater := ih hrest (before.2, some t.kind) h2 (by simpa using ht)
    rw [misnamedTexts, Known, misnamed_eq h1, ← hlater]
    cases misnamed (none, none) t rest <;> simp

theorem misnamedTexts_of_unknownFields {ts : List Token} (h : unknownFields ts = []) :
    misnamedTexts (none, none) ts = [] := by
  cases hm : misnamedTexts (none, none) ts with
  | nil => rfl
  | cons name names => simp [unknownFields, hm, List.eraseDups_cons] at h

/-- Without aggregates no field is unknown exactly if none is because of what follows it. -/
theorem unknownFields_eq_nil_iff {ts : List Token} (hts : ∀ t ∈ ts, t.kind ≠ .aggregateFunction) :
    unknownFields ts = [] ↔ Known ts := by
  rw [← misnamedTexts_eq_nil_iff hts (none, none) (by decide) (by decide)]
  constructor
  · exact misnamedTexts_of_unknownFields
  · intro h
    rw [unknownFields, h]
    rfl

/-- A token that can be no field's name is known. -/
theorem known_cons {t : Token} {rest : List Token} {kind : TokenKind} (hk : t.kind = kind)
    (hne : kind ≠ .field ∧ kind ≠ .identifier) (h : Known rest) : Known (t :: rest) := by
  refine ⟨?_, h⟩
  rw [misnamed]
  split
  · next hf => exact absurd (hk.symm.trans hf) hne.1
  · next hi => exact absurd (hk.symm.trans hi) hne.2
  · rfl

/-- What is known stays known if something else than a comparator follows. -/
theorem Known.append {ts us : List Token} (h : Known ts) (hu : Known us)
    (hk : us.head?.map Token.kind ≠ some .comparisonOp) : Known (ts ++ us) := by
  have hne : (us.head?.map Token.kind == some .comparisonOp) = false := beq_false_of_ne hk
  induction ts with
  | nil => exact hu
  | cons t rest ih =>
    refine ⟨?_, ih h.2⟩
    rw [← h.1, misnamed, misnamed]
    cases rest with
    | nil =>
      rw [List.append_eq, List.nil_append, hne]
      rfl
    | cons v rest => rfl

theorem Known.moved {ts : List Token} (h : Known ts) (n : Nat) :
    Known (ts.map (Token.moved n)) := by
  induction ts with
  | nil => trivial
  | cons t rest ih =>
    have hkeeps : Keeps (Token.moved n) := ⟨fun _ => rfl, fun _ _ => rfl⟩
    exact ⟨(hkeeps.misnamed _ t rest).trans h.1, ih h.2⟩

end Admission

namespace Grammar

open Admission

/-! ## Derivations elsewhere -/

theorem Denotes.moved {t v} (h : Denotes t v) (n : Nat) : Denotes (t.moved n) v := by
  cases h with
  | number hk hv => exact .number hk hv
  | string hk hq ht => exact .string hk hq ht
  | bool hk => exact .bool hk
  | word hk => exact .word hk

theorem Argues.moved {t operand} (h : Argues t operand) (n : Nat) :
    Argues (t.moved n) operand := by
  cases h with
  | field hk ht => exact .field hk ht
  | wildcard hk => exact .wildcard hk

theorem Compares.moved {t op} (h : Compares t op) (n : Nat) : Compares (t.moved n) op :=
  ⟨h.kind, h.text⟩

/-- A link with its tokens at a later place. -/
def Link.moved (n : Nat) (link : Link) : Link :=
  ⟨link.joint.moved n, link.tokens.map (Token.moved n), link.rule⟩

theorem flatMap_span_moved (n : Nat) (links : List Link) :
    (links.map (Link.moved n)).flatMap Link.span =
      (links.flatMap Link.span).map (Token.moved n) := by
  induction links with
  | nil => rfl
  | cons link links ih =>
    rw [List.map_cons, List.flatMap_cons, List.flatMap_cons, List.map_append, ih]
    rfl

/-- A derivation depends on the kinds and the texts of its tokens, not on their places. -/
theorem Derives.moved {symbol d ts rule} (h : Derives symbol d ts rule) (n : Nat) :
    Derives symbol d (ts.map (Token.moved n)) rule := by
  induction h with
  | literal h => exact .literal (h.moved n)
  | field hk ht => exact .field hk ht
  | aggregate hk ht ho ha hc => exact .aggregate hk ht ho (ha.moved n) hc
  | @group d opening ts closing rule ho _ hc ih =>
    rw [List.map_cons, List.map_append]
    exact @Derives.group d (opening.moved n) _ (closing.moved n) rule ho ih hc
  | operand _ ih => exact .operand ih
  | compare _ ht _ ihl ihr =>
    rw [List.map_append, List.map_cons]
    exact .compare ihl (ht.moved n) ihr
  | plain _ ih => exact .plain ih
  | @negation d t ts rule ht _ hc ih => exact .negation (t := t.moved n) ht ih hc
  | single _ ih => exact .single ih
  | @run op d ts first second more _ hc hj _ hcs ih ihs =>
    rw [List.map_append, ← flatMap_span_moved]
    have hrules : (more.map (Link.moved n)).map Link.rule = more.map Link.rule := by
      rw [List.map_map]
      rfl
    rw [← hrules]
    have hmoved : ∀ {P : Link → Prop}, (∀ link ∈ second :: more, P (link.moved n)) →
        ∀ link ∈ second.moved n :: more.map (Link.moved n), P link := by
      intro P h
      rw [← List.map_cons]
      exact List.forall_mem_map.2 h
    exact @Derives.run op d _ first (second.moved n) (more.map (Link.moved n)) ih hc
      (hmoved hj) (hmoved ihs) (hmoved hcs)

/-! ## Parts -/

/-- The tokens can be an operand of every logical operator: an atom that is a condition, in which
no field is unknown and no aggregate occurs. -/
structure Part (d : Nat) (ts : List Token) (rule : Rule) : Prop where
  derives : Derives .atom d ts rule
  isCondition : rule.isCondition = true
  known : Known ts
  noAggregate : ∀ t ∈ ts, t.kind ≠ .aggregateFunction

/-- Any condition in parentheses is a part. -/
theorem Part.group {d ts rule} {opening closing : Token} (ho : opening.kind = .lparen)
    (hd : Derives (.chain .or) d ts rule) (hrule : rule.isCondition = true) (hk : Known ts)
    (ha : ∀ t ∈ ts, t.kind ≠ .aggregateFunction) (hc : closing.kind = .rparen) :
    Part (d + 1) (opening :: (ts ++ [closing])) rule where
  derives := .group ho hd hc
  isCondition := hrule
  known := by
    have hclosing : Known [closing] := known_cons hc (by decide) trivial
    exact known_cons ho (by decide) (hk.append hclosing (by simp [hc]))
  noAggregate := by
    intro t ht
    rcases List.mem_cons.1 ht with rfl | ht
    · rw [ho]
      decide
    · rcases List.mem_append.1 ht with ht | ht
      · exact ha t ht
      · rw [List.mem_singleton.1 ht, hc]
        decide

/-- The operator and a part behind it. -/
structure Link.Joins (op : Junction) (d : Nat) (link : Link) : Prop where
  joint : isLogic op.op link.joint = true
  part : Part d link.tokens link.rule

/-- Behind a part there may be the links of a chain. -/
theorem known_links {op : Junction} {d : Nat} {links : List Link}
    (h : ∀ link ∈ links, link.Joins op d) :
    Known (links.flatMap Link.span) ∧
      (links.flatMap Link.span).head?.map Token.kind ≠ some .comparisonOp := by
  induction links with
  | nil => exact ⟨trivial, by simp⟩
  | cons link links ih =>
    obtain ⟨hlink, hlinks⟩ := List.forall_mem_cons.1 h
    obtain ⟨hk, hhead⟩ := ih hlinks
    have hjoint : link.joint.kind = .logicOp := (isLogic_iff.1 hlink.joint).1
    refine ⟨known_cons hjoint (by decide) (hlink.part.known.append hk hhead), ?_⟩
    simp [Link.span, hjoint]

/-- Two or more parts with one operator between them. -/
theorem Part.run {op : Junction} {d ts first} {second : Link} {more : List Link}
    (hfirst : Part d ts first) (h : ∀ link ∈ second :: more, link.Joins op d) :
    Derives (.chain .or) d (ts ++ (second :: more).flatMap Link.span)
      (.junction op first second.rule (more.map Link.rule)) := by
  have hrank : Symbol.atom.rank ≤ (operandOf op).rank := Nat.zero_le _
  have hrun : Derives (.chain op) d (ts ++ (second :: more).flatMap Link.span)
      (.junction op first second.rule (more.map Link.rule)) :=
    .run (hfirst.derives.lift hrank) hfirst.isCondition
      (fun link hl => (h link hl).joint)
      (fun link hl => (h link hl).part.derives.lift hrank)
      (fun link hl => (h link hl).part.isCondition)
  exact hrun.lift (Symbol.rank_le _)

/-- A part behind a negation. -/
theorem Part.negation {d ts rule} {t : Token} (h : Part d ts rule)
    (ht : isLogic .not t = true) : Derives (.chain .or) (d + 1) (t :: ts) (.negation rule) := by
  have hrank : Symbol.atom.rank ≤ Symbol.factor.rank := Nat.zero_le _
  have hnegation : Derives .factor (d + 1) (t :: ts) (.negation rule) :=
    .negation ht (h.derives.lift hrank) h.isCondition
  exact hnegation.lift (Symbol.rank_le _)

/-! ## Admission of parts -/

/-- Tokens without unknown fields and aggregates pass as a composite rule if there is a logical
operator among them. -/
theorem check_composite {ts : List Token} (hk : Known ts)
    (ha : ∀ t ∈ ts, t.kind ≠ .aggregateFunction) (hl : ∃ t ∈ ts, t.kind = .logicOp) :
    check ts .composite = .ok () := by
  have hlogic : has .logicOp ts = true := has_iff.2 hl
  have haggregate : has .aggregateFunction ts = false := by
    rw [← Bool.not_eq_true, has_iff]
    rintro ⟨t, ht, hkind⟩
    exact ha t ht hkind
  exact check_eq_ok.2 ⟨(unknownFields_eq_nil_iff ha).2 hk, breach?_composite.2 ⟨hlogic, haggregate⟩⟩

theorem Part.check_run {op : Junction} {d ts first} {second : Link} {more : List Link}
    (hfirst : Part d ts first) (h : ∀ link ∈ second :: more, link.Joins op d) :
    check (ts ++ (second :: more).flatMap Link.span) .composite = .ok () := by
  have hkind : ∀ link ∈ second :: more, link.joint.kind = .logicOp := by
    intro link hl
    exact (isLogic_iff.1 (h link hl).joint).1
  obtain ⟨hk, hhead⟩ := known_links h
  refine check_composite (hfirst.known.append hk hhead) ?_ ?_
  · intro t ht
    rcases List.mem_append.1 ht with ht | ht
    · exact hfirst.noAggregate t ht
    · obtain ⟨link, hl, ht⟩ := List.mem_flatMap.1 ht
      rcases List.mem_cons.1 ht with rfl | ht
      · rw [hkind link hl]
        decide
      · exact (h link hl).part.noAggregate t ht
  · refine ⟨second.joint, ?_, hkind second List.mem_cons_self⟩
    simp [Link.span]

theorem Part.check_negation {d ts rule} {t : Token} (h : Part d ts rule)
    (ht : isLogic .not t = true) : check (t :: ts) .composite = .ok () := by
  have hkind : t.kind = .logicOp := (isLogic_iff.1 ht).1
  refine check_composite (known_cons hkind (by decide) h.known) ?_ ⟨t, List.mem_cons_self, hkind⟩
  refine List.forall_mem_cons.2 ⟨?_, h.noAggregate⟩
  rw [hkind]
  decide

end Grammar

end Screening
