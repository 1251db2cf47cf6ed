import Screening.Proofs.Compile.Shape
import Screening.Proofs.Grammar.Completeness
import Screening.Proofs.Rule.Printed

/-!
# Canonical texts compile

The canonical text of a rule that has the shape of a category compiles under that category to the
very rule, as long as the limit on nesting is at least the nesting of the text, and is too deep
otherwise. What compiles has such a rule, and the text it was compiled from nests at least as deep.
-/

namespace Screening

open Admission Grammar

namespace Rule

theorem HasShape.isCondition {rule : Rule} {category : Category} (h : rule.HasShape category) :
    rule.isCondition = true := by
  cases category with
  | threshold =>
    obtain ⟨⟨op, left, right, rfl⟩, -⟩ := h
    rfl
  | pattern =>
    obtain ⟨op, call, value, rfl⟩ := h
    rfl
  | composite => exact h.1

section

variable {options : CompileOptions} {rule : Rule} {category : Category}

/-- The canonical text gets as far as being read. -/
theorem exists_compile_text (h : rule.Printable) (hshape : rule.HasShape category)
    (hcase : options.preserveLiteralCase = true)
    (hlength : rule.text.utf8ByteSize ≤ options.maxLength) :
    ∃ ts, Generates category rule.nesting ts rule ∧ compile options rule.text category =
      (read ⟨category, options.maxDepth, rule.text.utf8ByteSize⟩ ts).mapError .grammatical := by
  obtain ⟨ts, ⟨hg, hnamed⟩, hscan⟩ := (spells_generates h hshape).scan
  have hcheck : check ts category = .ok () :=
    check_eq_ok.2 ⟨unknownFields_eq_nil hnamed, hg.breach?_eq_none_iff.2 hshape⟩
  rw [← hcase] at hscan
  exact ⟨ts, hg, compile_eq_read (allBlank_text hshape.isCondition) hlength hscan hcheck⟩

/-- With room for its nesting the canonical text compiles to the rule. -/
theorem compile_text (h : rule.Printable) (hshape : rule.HasShape category)
    (hcase : options.preserveLiteralCase = true)
    (hlength : rule.text.utf8ByteSize ≤ options.maxLength)
    (hdepth : rule.nesting ≤ options.maxDepth) :
    compile options rule.text category = .ok rule := by
  obtain ⟨ts, hg, hcompile⟩ := exists_compile_text h hshape hcase hlength
  rw [hcompile]
  exact mapError_eq_ok.2 (hg.yields.eq_ok (Nat.not_lt.2 hdepth))

/-- Without room for its nesting the canonical text is too deep. -/
theorem compile_text_tooDeep (h : rule.Printable) (hshape : rule.HasShape category)
    (hcase : options.preserveLiteralCase = true)
    (hlength : rule.text.utf8ByteSize ≤ options.maxLength)
    (hdepth : options.maxDepth < rule.nesting) :
    ∃ p, compile options rule.text category =
      .error (.grammatical ⟨category, some p, .tooDeep options.maxDepth⟩) := by
  obtain ⟨ts, hg, hcompile⟩ := exists_compile_text h hshape hcase hlength
  let s : Setting := ⟨category, options.maxDepth, rule.text.utf8ByteSize⟩
  have hyields : Yields s (options.maxDepth < rule.nesting) (read s ts) rule := hg.yields
  rcases hyields with hok | ⟨-, p, herror⟩
  · -- what is read nests no deeper than the limit
    have := (generates_of_read hok).nesting_le
    exact absurd hdepth (Nat.not_lt.2 this)
  · refine ⟨p, ?_⟩
    rw [hcompile, herror]
    rfl

end

end Rule

/-! ## Rules however built -/

/-- A printable rule of the right shape compiles from its own text to itself exactly if the text
nests no deeper than the limit, and is refused as too deep otherwise. -/
theorem compile_text_eq_ok_iff (options : CompileOptions) (category : Category) (rule : Rule)
    (h : rule.Printable) (hshape : rule.HasShape category)
    (hcase : options.preserveLiteralCase = true)
    (hlength : rule.text.utf8ByteSize ≤ options.maxLength) :
    (compile options rule.text category = .ok rule ↔ rule.nesting ≤ options.maxDepth) ∧
      (options.maxDepth < rule.nesting →
        ∃ p, compile options rule.text category =
          .error (.grammatical ⟨category, some p, .tooDeep options.maxDepth⟩)) := by
  refine ⟨⟨fun hok => Nat.not_lt.1 fun hdepth => ?_, Rule.compile_text h hshape hcase hlength⟩,
    Rule.compile_text_tooDeep h hshape hcase hlength⟩
  obtain ⟨p, herror⟩ := Rule.compile_text_tooDeep h hshape hcase hlength hdepth
  rw [herror] at hok
  cases hok

/-- Two levels are just enough for a negated group, and one is not. -/
theorem compile_text_eq_ok_iff_group :
    ∃ rule : Rule, rule.Printable ∧ rule.HasShape .composite ∧
      rule.text = "NOT (TIME = 'a' OR AMOUNT < -1.5)" ∧ rule.nesting = 2 ∧
      compile { maxDepth := 2 } rule.text .composite = .ok rule ∧
      ∃ p, compile { maxDepth := 1 } rule.text .composite =
        .error (.grammatical ⟨.composite, some p, .tooDeep 1⟩) := by
  let low : Number.Binary64 :=
    ⟨true, 0x18000000000000, 1022, by decide, by decide, by decide⟩
  let rule : Rule := .negation (.junction .or
    (.comparison .equal (.field .time) (.literal (.string "a")))
    (.comparison .lessThan (.field .amount) (.literal (.float low))) [])
  have htext : rule.text = "NOT (TIME = 'a' OR AMOUNT < -1.5)" := by decide +kernel
  have hlength : rule.text.utf8ByteSize ≤ 4096 := by decide +kernel
  have hrule : compile {} "not(time = 'a' or amount < -1.5)" .composite = .ok rule := by
    decide +kernel
  obtain ⟨ts, hp⟩ := exists_passes hrule
  have hwide := compile_text_eq_ok_iff { maxDepth := 2 } .composite rule (hp.printable rfl)
    hp.hasShape rfl hlength
  have hnarrow := compile_text_eq_ok_iff { maxDepth := 1 } .composite rule (hp.printable rfl)
    hp.hasShape rfl hlength
  exact ⟨rule, hp.printable rfl, hp.hasShape, htext, rfl, hwide.1.2 (Nat.le_refl 2),
    hnarrow.2 (Nat.lt_succ_self 1)⟩

/-! ## Rules that were compiled -/

/-- The canonical text of what was compiled compiles to the same rule again. It nests no deeper
than the limit, and no deeper than the source: whatever budget the tokens of the source are
generated within, the canonical text fits into it. -/
theorem compile_text_of_compile (options : CompileOptions) (text : String) (category : Category)
    (rule : Rule) (h : compile options text category = .ok rule)
    (hcase : options.preserveLiteralCase = true)
    (hlength : rule.text.utf8ByteSize ≤ options.maxLength) :
    compile options rule.text category = .ok rule ∧ rule.nesting ≤ options.maxDepth ∧
      ∀ ts d, Token.scan text = .ok ts → Generates category d ts rule → rule.nesting ≤ d := by
  obtain ⟨ts, hp⟩ := exists_passes h
  have hdepth : rule.nesting ≤ options.maxDepth := hp.generates.nesting_le
  refine ⟨?_, hdepth, fun _ _ _ hg => hg.nesting_le⟩
  exact Rule.compile_text (hp.printable hcase) hp.hasShape hcase hlength hdepth

/-- Redundant parentheses, a bare word and leading zeros are gone from the canonical text, which
takes no more levels than the source. -/
theorem compile_text_of_compile_redundant :
    ∃ rule : Rule,
      compile { maxDepth := 2 } "((time = Night)) and not not amount > 005" .composite = .ok rule ∧
      rule.text = "TIME = 'night' AND NOT NOT AMOUNT > 5" ∧
      compile { maxDepth := 2 } rule.text .composite = .ok rule ∧ rule.nesting ≤ 2 := by
  let night : Rule := .comparison .equal (.field .time) (.literal (.string "night"))
  let large : Rule := .comparison .greaterThan (.field .amount) (.literal (.int32 5))
  let rule : Rule := .junction .and night (.negation (.negation large)) []
  have h : compile { maxDepth := 2 } "((time = Night)) and not not amount > 005" .composite =
      .ok rule := by decide +kernel
  have htext : rule.text = "TIME = 'night' AND NOT NOT AMOUNT > 5" := by decide +kernel
  have hlength : rule.text.utf8ByteSize ≤ 4096 := by decide +kernel
  obtain ⟨hagain, hdepth, -⟩ := compile_text_of_compile _ _ _ _ h rfl hlength
  exact ⟨rule, h, htext, hagain, hdepth⟩

end Screening
