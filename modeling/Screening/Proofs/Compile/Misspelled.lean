import Screening.Proofs.Compile.Shape
import Screening.Proofs.Grammar.Words

/-!
# Misspelled fields

In a text without quotes every string of the rule is a bare word. Such a word does not get on the
left of a comparison, where it would make a constant of a misspelled field, unless it stands in
parentheses there.
-/

namespace Screening

open Admission Grammar Token

/-- Without quotes there are no strings among the tokens. -/
theorem Token.Scans.kind_ne_string {keepCase : Bool} {p q : Nat} {cs rest : List Char}
    {ts : List Token} (h : Scans keepCase p cs ts q rest)
    (hcs : ∀ c ∈ cs, Lexeme.isQuote c = false) : ∀ t ∈ ts, t.kind ≠ .string := by
  induction h with
  | done => simp
  | space _ _ ih => exact ih (List.forall_mem_cons.1 hcs).2
  | lexeme hx _ ih =>
    have hkind := Lexeme.kind_ne_string hx hcs
    obtain ⟨rfl, -⟩ := Lexeme.front?_eq_some hx
    exact List.forall_mem_cons.2 ⟨hkind, ih (List.forall_mem_append.1 hcs).2⟩

/-- A text without quotes compiles to a rule with a string on the left of a comparison exactly if
one of its bare words stands in parentheses in front of a comparator. Any other word on the left
of a comparison is reported as an unknown field. -/
theorem comparesString_iff_hidesWord (options : CompileOptions) (text : String)
    (category : Category) (rule : Rule) (hquote : Quoteless text)
    (h : compile options text category = .ok rule) :
    ComparesString rule ↔
      ∃ ts, Token.scan text options.preserveLiteralCase = .ok ts ∧ HidesWord ts := by
  obtain ⟨ts, hp⟩ := exists_passes h
  obtain ⟨hnames, -⟩ := check_eq_ok.1 hp.check
  obtain ⟨q, hscans⟩ := scan_eq_ok_iff.1 hp.scan
  have hfree : ∀ c ∈ text.toList, Lexeme.isQuote c = false := by
    simpa [Quoteless] using hquote
  rw [hp.generates.comparesString_iff hnames (hscans.kind_ne_string hfree)]
  constructor
  · intro hts
    exact ⟨ts, hp.scan, hts⟩
  · intro hex
    obtain ⟨us, hscan, hus⟩ := hex
    obtain rfl : ts = us := Except.ok.inj (hp.scan.symm.trans hscan)
    exact hus

/-- Words may stand in parentheses on the right of a comparison. -/
theorem comparesString_iff_hidesWord_night :
    let rule : Rule := .negation (.comparison .equal (.field .time) (.literal (.string "night")))
    Quoteless "not time = (night)" ∧ compile {} "not time = (night)" .composite = .ok rule ∧
      (ComparesString rule ↔
        ∃ ts, Token.scan "not time = (night)" = .ok ts ∧ HidesWord ts) := by
  intro rule
  have hquote : Quoteless "not time = (night)" := by decide
  have h : compile {} "not time = (night)" .composite = .ok rule := by decide +kernel
  exact ⟨hquote, h, comparesString_iff_hidesWord _ _ _ _ hquote h⟩

/-- In parentheses a misspelled field becomes a constant. -/
theorem comparesString_foo :
    ∃ rule, Quoteless "(FOO) > 1" ∧ compile {} "(FOO) > 1" .threshold = .ok rule ∧
      ComparesString rule := by
  refine ⟨.comparison .greaterThan (.literal (.string "foo")) (.literal (.int32 1)), ?_, ?_, ?_⟩
  · unfold Quoteless
    decide
  · decide +kernel
  · exact ⟨.greaterThan, "foo", _, Rule.mem_nodes_self _⟩

end Screening
