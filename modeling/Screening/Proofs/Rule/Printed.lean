import Screening.Proofs.Grammar.Admitted
import Screening.Proofs.Grammar.Binding
import Screening.Proofs.Token.Spelling
import Screening.Rule.Text

/-!
# The canonical text of a rule

The canonical text of a well-formed rule is scanned as tokens that its symbol derives, within a
budget that is the nesting of the text, and as that very rule. No token is a bare word, and every
field there is a field.
-/

namespace Screening

open Grammar Admission Token

/-! ## Readings -/

/-- The tokens are derived by the symbol within the budget as this rule, and each of them is well
named. -/
structure Reads (symbol : Symbol) (budget : Nat) (rule : Rule) (ts : List Token) : Prop where
  derives : Derives symbol budget ts rule
  named : ∀ t ∈ ts, WellNamed t

/-- Only a bare word and a field's name can be ill named. -/
theorem wellNamed_of_kind {t : Token} {kind : TokenKind} (hk : t.kind = kind)
    (hne : kind ≠ .identifier ∧ kind ≠ .field) : WellNamed t := by
  subst hk
  exact ⟨hne.1, fun h => absurd h hne.2⟩

namespace Reads

theorem mono {symbol d e rule ts} (h : Reads symbol d rule ts) (hde : d ≤ e) :
    Reads symbol e rule ts :=
  ⟨h.derives.mono hde, h.named⟩

/-- A rule in parentheses can stand wherever an operand can. -/
theorem group {symbol d rule ts} {opening closing : Token} (h : Reads symbol d rule ts)
    (ho : opening.kind = .lparen) (hc : closing.kind = .rparen) :
    Reads .atom (d + 1) rule (opening :: (ts ++ [closing])) := by
  refine ⟨.group ho (h.derives.lift symbol.rank_le) hc, ?_⟩
  have hopening : WellNamed opening := wellNamed_of_kind ho (by decide)
  have hclosing : WellNamed closing := wellNamed_of_kind hc (by decide)
  simpa [or_imp, forall_and, hopening, hclosing] using h.named

end Reads

/-- A rule that is read off its text by its own symbol is read by every other symbol too, off the
text that has parentheses where they are needed. -/
theorem Rule.spells_parenthesize {rule : Rule} {d : Nat}
    (h : Spells rule.text (Reads rule.symbol d rule)) (wanted : Symbol) :
    Spells (Rule.parenthesize (rule.needsGroup wanted) rule.text)
      (Reads wanted (d + (rule.needsGroup wanted).toNat) rule) := by
  cases hg : rule.needsGroup wanted with
  | false =>
    have hrank : rule.symbol.rank ≤ wanted.rank := by simpa [needsGroup] using hg
    exact h.mono fun ts hr => ⟨hr.derives.lift hrank, hr.named⟩
  | true =>
    apply h.group.mono
    intro ts hts
    obtain ⟨opening, us, closing, rfl, ho, hr, hc⟩ := hts
    have hgroup := hr.group ho hc
    exact ⟨hgroup.derives.lift (Nat.zero_le _), hgroup.named⟩

/-! ## Leaves -/

theorem spells_field (name : Field) : Spells name.name (Lone .field name.name) :=
  .word (by cases name <;> decide) (by decide)

theorem spells_function (function : AggregateFunction) :
    Spells function.name (Lone .aggregateFunction function.name) :=
  .word (by cases function <;> decide) (by decide)

theorem spells_logicOp (op : LogicOp) : Spells op.name (Lone .logicOp op.name) :=
  .word (by cases op <;> decide) (by decide)

theorem wellNamed_field {t : Token} {name : Field} (hk : t.kind = .field)
    (ht : t.text = name.name) : WellNamed t := by
  refine ⟨by simp [hk], fun _ => ?_⟩
  have hfind : Named.find? t.text = some name := Named.find?_eq_some_iff.2 ht.symm
  rw [Named.isName, hfind]
  rfl

namespace Literal

/-- The text of a number is one token, which denotes the number if it reads back as it. -/
theorem spells_number {v : Literal} (hshape : Number.NumberShape v.text.toList)
    (hread : ofNumberText? v.text = some v) :
    Spells v.text fun ts => ∃ t, ts = [t] ∧ Denotes t v ∧ WellNamed t :=
  (Spells.number hshape).single fun _ hk ht =>
    ⟨.number hk (ht ▸ hread), wellNamed_of_kind hk (by decide)⟩

theorem spells_quote {s : String} (hs : (Literal.string s).Quotable) :
    Spells (quote s) fun ts => ∃ t, ts = [t] ∧ Denotes t (.string s) ∧ WellNamed t := by
  -- single quotes unless the string has one, and then it has no double quotes
  obtain ⟨mark, hmark, hfree, htext⟩ : ∃ mark, Lexeme.isQuote mark = true ∧ mark ∉ s.toList ∧
      quote s = String.ofList (mark :: (s.toList ++ [mark])) := by
    by_cases hsingle : '\x27' ∈ s.toList
    · refine ⟨'"', rfl, fun hdouble => hs ⟨hsingle, hdouble⟩, ?_⟩
      rw [← String.toList_inj]
      simp [quote, hsingle]
    · refine ⟨'\x27', rfl, hsingle, ?_⟩
      rw [← String.toList_inj]
      simp [quote, hsingle]
  rw [htext]
  apply (Spells.string hmark hfree).single
  intro t hk ht
  have hd : Denotes t (.string (String.ofList s.toList)) :=
    .string hk hmark (by rw [ht, String.toList_ofList])
  rw [String.ofList_toList] at hd
  exact ⟨hd, wellNamed_of_kind hk (by decide)⟩

theorem spells_bool (b : Bool) :
    Spells (Literal.bool b).text fun ts => ∃ t, ts = [t] ∧ Denotes t (.bool b) ∧ WellNamed t := by
  have hword : Spells (Literal.bool b).text (Lone .bool (Literal.bool b).text) :=
    .word (by cases b <;> decide) (by decide)
  have hvalue : ((Literal.bool b).text == "TRUE") = b := by cases b <;> decide
  apply hword.single
  intro t hk ht
  have hd := Denotes.bool hk
  rw [ht, hvalue] at hd
  exact ⟨hd, wellNamed_of_kind hk (by decide)⟩

/-- The canonical text of a literal is one token that denotes it. -/
theorem spells {v : Literal} (hc : v.Canonical) (hq : v.Quotable) :
    Spells v.text fun ts => ∃ t, ts = [t] ∧ Denotes t v ∧ WellNamed t := by
  cases v with
  | int32 v =>
    refine spells_number (Number.numberShape_repr v.toInt) ?_
    rw [text, ofNumberText?_repr (fits64_of_fits32 (fits32_int32 v)), narrow_int32]
  | int64 v =>
    refine spells_number (Number.numberShape_repr v.toInt) ?_
    rw [text, ofNumberText?_repr (fits64_int64 v), narrow_int64 hc]
  | float x =>
    obtain ⟨hread, hshape⟩ := ofNumberText?_float hc
    exact spells_number hshape hread
  | string s => exact spells_quote hq
  | bool b => exact spells_bool b

end Literal

/-- An aggregate's argument as it is written. -/
def AggregateOperand.text : AggregateOperand → String
  | .field name => name.name
  | .wildcard => "*"

theorem AggregateOperand.spells (operand : AggregateOperand) :
    Spells operand.text fun ts => ∃ t, ts = [t] ∧ Argues t operand ∧ WellNamed t := by
  cases operand with
  | field name =>
    exact (spells_field name).single fun _ hk ht => ⟨.field hk ht, wellNamed_field hk ht⟩
  | wildcard =>
    exact Spells.star.single fun _ hk _ => ⟨.wildcard hk, wellNamed_of_kind hk (by decide)⟩

theorem Aggregate.text_eq (function : AggregateFunction) (operand : AggregateOperand) :
    Aggregate.text ⟨function, operand⟩ = function.name ++ ("(" ++ operand.text ++ ")") := by
  cases operand with
  | field name => simp [Aggregate.text, AggregateOperand.text, String.append_assoc]
  | wildcard => simp [Aggregate.text, AggregateOperand.text]

/-- The text of an aggregate has the parentheses of its call, which are no group. -/
theorem Aggregate.spells (call : Aggregate) :
    Spells call.text (Reads .atom 0 (.aggregate call)) := by
  obtain ⟨function, operand⟩ := call
  have hcall := (spells_function function).append operand.spells.group (Spells.delimited_group _)
  rw [Aggregate.text_eq]
  apply hcall.mono
  intro ts hts
  obtain ⟨_, _, rfl, ⟨t, rfl, hk, ht⟩, opening, _, closing, rfl, ho, ⟨arg, rfl, ha, hn⟩, hc⟩ := hts
  refine ⟨.aggregate hk ht ho ha hc, ?_⟩
  have hname : WellNamed t := wellNamed_of_kind hk (by decide)
  have hopening : WellNamed opening := wellNamed_of_kind ho (by decide)
  have hclosing : WellNamed closing := wellNamed_of_kind hc (by decide)
  simp [hname, hopening, hn, hclosing]

/-! ## Comparisons and logical operators -/

namespace Rule

theorem text_comparison (op : Comparator) (left right : Rule) :
    (comparison op left right).text =
      parenthesize left.isCondition left.text ++ (" " ++ (op.symbol ++
        (" " ++ parenthesize right.isCondition right.text))) := by
  simp only [text, String.append_assoc]

theorem text_negation (operand : Rule) :
    (negation operand).text =
      LogicOp.not.name ++ (" " ++ parenthesize (operand.grouped .not) operand.text) := by
  rw [text, ← String.append_assoc]
  rfl

theorem textMore_cons (op : Junction) (rule : Rule) (rest : List Rule) :
    textMore op (rule :: rest) = (" " ++ (op.op.name ++
      (" " ++ parenthesize (rule.grouped op.op) rule.text))) ++ textMore op rest := by
  simp only [textMore, String.append_assoc]

theorem text_junction (op : Junction) (first second : Rule) (more : List Rule) :
    (junction op first second more).text =
      parenthesize (first.grouped op.op) first.text ++ textMore op (second :: more) := by
  simp only [text, textMore, String.append_assoc]

theorem delimited_textMore (op : Junction) (rules : List Rule) :
    Text.Delimited (textMore op rules).toList := by
  cases rules with
  | nil => exact .nil
  | cons rule rest =>
    rw [textMore_cons, String.append_assoc]
    exact Spells.delimited_space _

/-- The parts of a comparison follow one another, each operand with its parentheses. -/
theorem spells_parts {op : Comparator} {left right : Rule}
    (hl : Spells left.text (Reads left.symbol left.nesting left))
    (hr : Spells right.text (Reads right.symbol right.nesting right)) :
    Spells (comparison op left right).text fun ts => ∃ ls t rs, ts = ls ++ t :: rs ∧
      Reads .atom (comparison op left right).nesting left ls ∧ Compares t op ∧
        Reads .atom (comparison op left right).nesting right rs := by
  have hleft := spells_parenthesize hl .atom
  have hright := spells_parenthesize hr .atom
  rw [needsGroup_atom] at hleft hright
  rw [text_comparison]
  apply (hleft.spaced ((Spells.comparator op).spaced hright)).mono
  intro ts hts
  obtain ⟨ls, _, rfl, hls, _, rs, rfl, ⟨t, rfl, hk, ht⟩, hrs⟩ := hts
  refine ⟨ls, t, rs, rfl, hls.mono (Nat.le_max_left _ _), ⟨hk, ?_⟩, hrs.mono (Nat.le_max_right _ _)⟩
  rw [ht, Comparator.ofSymbol?_symbol]

theorem named_parts {ls rs : List Token} {t : Token} {op : Comparator}
    (hl : ∀ u ∈ ls, WellNamed u) (ht : Compares t op) (hr : ∀ u ∈ rs, WellNamed u) :
    ∀ u ∈ ls ++ t :: rs, WellNamed u := by
  have hn : WellNamed t := wellNamed_of_kind ht.kind (by decide)
  exact List.forall_mem_append.2 ⟨hl, List.forall_mem_cons.2 ⟨hn, hr⟩⟩

theorem spells_comparison {op : Comparator} {left right : Rule}
    (hl : Spells left.text (Reads left.symbol left.nesting left))
    (hr : Spells right.text (Reads right.symbol right.nesting right)) :
    Spells (comparison op left right).text
      (Reads .comparison (comparison op left right).nesting (.comparison op left right)) := by
  apply (spells_parts hl hr).mono
  intro ts hts
  obtain ⟨ls, t, rs, rfl, hls, ht, hrs⟩ := hts
  exact ⟨.compare hls.derives ht hrs.derives, named_parts hls.named ht hrs.named⟩

theorem spells_negation {operand : Rule} (hc : operand.isCondition = true)
    (h : Spells operand.text (Reads operand.symbol operand.nesting operand)) :
    Spells (negation operand).text
      (Reads .factor (negation operand).nesting (.negation operand)) := by
  have hoperand := spells_parenthesize h .factor
  rw [needsGroup_factor] at hoperand
  rw [text_negation]
  apply ((spells_logicOp .not).spaced hoperand).mono
  intro ts hts
  obtain ⟨_, us, rfl, ⟨t, rfl, hk, ht⟩, hus⟩ := hts
  refine ⟨.negation (isLogic_iff.2 ⟨hk, ht⟩) hus.derives hc, ?_⟩
  have hn : WellNamed t := wellNamed_of_kind hk (by decide)
  exact List.forall_mem_cons.2 ⟨hn, hus.named⟩

/-- The links of a run of `op`: all of them are joined by the operator and read as operands. -/
structure Links (op : Junction) (budget : Nat) (links : List Link) : Prop where
  joint : ∀ link ∈ links, isLogic op.op link.joint = true
  reads : ∀ link ∈ links, Reads (operandOf op) budget link.rule link.tokens

theorem Links.named {op budget links} (h : Links op budget links) :
    ∀ t ∈ links.flatMap Link.span, WellNamed t := by
  intro t ht
  obtain ⟨link, hl, ht⟩ := List.mem_flatMap.1 ht
  rcases List.mem_cons.1 ht with rfl | ht
  · exact wellNamed_of_kind (isLogic_iff.1 (h.joint link hl)).1 (by decide)
  · exact (h.reads link hl).named t ht

/-- The operands that follow are the links of a run. -/
theorem spells_textMore (op : Junction) {budget : Nat} {rules : List Rule}
    (h : ∀ rule ∈ rules, Spells (parenthesize (rule.grouped op.op) rule.text)
      (Reads (operandOf op) budget rule)) :
    Spells (textMore op rules) fun ts =>
      ∃ links, ts = links.flatMap Link.span ∧ rules = links.map Link.rule ∧
        Links op budget links := by
  induction rules with
  | nil =>
    intro p rest _
    exact ⟨[], p, ⟨[], rfl, rfl, by simp, by simp⟩, .done⟩
  | cons rule rest ih =>
    obtain ⟨hrule, hrest⟩ := List.forall_mem_cons.1 h
    have hlink := ((spells_logicOp op.op).spaced hrule).space
    rw [textMore_cons]
    apply (hlink.append (ih hrest) (delimited_textMore op rest)).mono
    intro ts hts
    obtain ⟨_, _, rfl, ⟨_, us, rfl, ⟨t, rfl, hk, ht⟩, hus⟩, links, rfl, rfl, hj, hr⟩ := hts
    refine ⟨⟨t, us, rule⟩ :: links, rfl, rfl, ?_, ?_⟩
    · exact List.forall_mem_cons.2 ⟨isLogic_iff.2 ⟨hk, ht⟩, hj⟩
    · exact List.forall_mem_cons.2 ⟨hus, hr⟩

theorem spells_junction {op : Junction} {first second : Rule} {more : List Rule}
    (hc : ∀ rule ∈ first :: second :: more, rule.isCondition = true)
    (h : ∀ rule ∈ first :: second :: more,
      Spells rule.text (Reads rule.symbol rule.nesting rule)) :
    Spells (junction op first second more).text
      (Reads (.chain op) (junction op first second more).nesting
        (.junction op first second more)) := by
  -- every operand fits into the budget of the whole
  have hfits := nesting_junction_le_iff.1 (Nat.le_refl (junction op first second more).nesting)
  have hoperands : ∀ rule ∈ first :: second :: more,
      Spells (parenthesize (rule.grouped op.op) rule.text)
        (Reads (operandOf op) (junction op first second more).nesting rule) := by
    intro rule hr
    have hp := spells_parenthesize (h rule hr) (operandOf op)
    rw [needsGroup_operandOf] at hp
    exact hp.mono fun ts hts => hts.mono (hfits rule hr)
  obtain ⟨hfirst, hlater⟩ := List.forall_mem_cons.1 hoperands
  rw [text_junction]
  apply (hfirst.append (spells_textMore op hlater) (delimited_textMore op _)).mono
  intro ts hts
  obtain ⟨us, _, rfl, hus, links, rfl, hrules, hlinks⟩ := hts
  -- there is a second operand, so there is a first link
  cases links with
  | nil => cases hrules
  | cons link links =>
    obtain ⟨rfl, rfl⟩ := List.cons.inj hrules
    obtain ⟨hcfirst, hclater⟩ := List.forall_mem_cons.1 hc
    refine ⟨.run hus.derives hcfirst hlinks.joint (fun l hl => (hlinks.reads l hl).derives) ?_, ?_⟩
    · exact fun l hl => hclater l.rule (List.mem_map_of_mem (f := Link.rule) hl)
    · exact List.forall_mem_append.2 ⟨hus.named, hlinks.named⟩

/-! ## All rules -/

/-- The canonical text of a printable rule is read as the rule, within a budget that is exactly
the nesting of the text. -/
theorem spells {rule : Rule} (h : rule.Printable) :
    Spells rule.text (Reads rule.symbol rule.nesting rule) := by
  induction rule with
  | literal value =>
    have hmem : Rule.literal value ∈ (Rule.literal value).nodes := mem_nodes_self _
    apply (Literal.spells (h.literals value hmem) (h.quotable value hmem)).mono
    intro ts hts
    obtain ⟨t, rfl, hd, hn⟩ := hts
    exact ⟨.literal hd, List.forall_mem_singleton.2 hn⟩
  | field name =>
    apply (spells_field name).mono
    intro ts hts
    obtain ⟨t, rfl, hk, ht⟩ := hts
    exact ⟨.field hk ht, List.forall_mem_singleton.2 (wellNamed_field hk ht)⟩
  | wildcard => exact absurd (mem_nodes_self _) h.wildcard
  | aggregate call => exact call.spells
  | comparison op left right ihl ihr =>
    have hl : left.Printable := h.of_subset fun _ hn => mem_nodes_comparison.2 (.inr (.inl hn))
    have hr : right.Printable := h.of_subset fun _ hn => mem_nodes_comparison.2 (.inr (.inr hn))
    exact spells_comparison (ihl hl) (ihr hr)
  | negation operand ih =>
    have ho : operand.Printable := h.of_subset fun _ hn => mem_nodes_negation.2 (.inr hn)
    have hc := h.operands _ (mem_nodes_self _) _ _ rfl
    exact spells_negation (hc operand List.mem_cons_self) (ih ho)
  | junction op first second more ihf ihs ihm =>
    have ih : ∀ rule ∈ first :: second :: more, rule.Printable →
        Spells rule.text (Reads rule.symbol rule.nesting rule) :=
      List.forall_mem_cons.2 ⟨ihf, List.forall_mem_cons.2 ⟨ihs, ihm⟩⟩
    refine spells_junction (h.operands _ (mem_nodes_self _) _ _ rfl) fun rule hr => ih rule hr ?_
    exact h.of_subset fun _ hn => mem_nodes_junction.2 (.inr ⟨rule, hr, hn⟩)

/-- The canonical text of a printable rule of the right shape is generated by the category. -/
theorem spells_generates {rule : Rule} {category : Category} (h : rule.Printable)
    (hshape : rule.HasShape category) :
    Spells rule.text fun ts =>
      Generates category rule.nesting ts rule ∧ ∀ t ∈ ts, WellNamed t := by
  cases category with
  | threshold =>
    obtain ⟨⟨op, left, right, rfl⟩, -⟩ := hshape
    exact (spells h).mono fun ts hr => ⟨.threshold hr.derives, hr.named⟩
  | pattern =>
    obtain ⟨op, call, value, rfl⟩ := hshape
    -- the entry wants the operands themselves, not a comparison that may stand in a group
    have hcall : (Rule.aggregate call).Printable := h.of_subset (by simp [nodes])
    have hvalue : (Rule.literal value).Printable := h.of_subset (by simp [nodes])
    apply (spells_parts (spells hcall) (spells hvalue)).mono
    intro ts hts
    obtain ⟨ls, t, rs, rfl, hls, ht, hrs⟩ := hts
    exact ⟨.pattern hls.derives ht hrs.derives, named_parts hls.named ht hrs.named⟩
  | composite =>
    refine (spells h).mono fun ts hr => ⟨.composite ?_, hr.named⟩
    exact hr.derives.lift rule.symbol.rank_le

/-- The text of a condition says something. -/
theorem allBlank_text {rule : Rule} (hc : rule.isCondition = true) :
    Text.allBlank rule.text = false := by
  cases rule with
  | comparison op left right =>
    have hsymbol : op.symbol.toList.all Text.isBlank = false := by cases op <;> decide
    simp [text, Text.allBlank, hsymbol]
  | negation operand =>
    have hname : LogicOp.not.name.toList.all Text.isBlank = false := by decide
    simp only [text_negation, Text.allBlank, String.toList_append, List.all_append, hname,
      Bool.false_and]
  | junction op first second more =>
    have hname : op.op.name.toList.all Text.isBlank = false := by cases op <;> decide
    simp [text, Text.allBlank, hname]
  | _ => cases hc

end Rule

end Screening
