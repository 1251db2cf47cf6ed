import Screening.Compile
import Screening.Proofs.Grammar.Admitted
import Screening.Proofs.Grammar.Soundness
import Screening.Proofs.Rule.Equality
import Screening.Proofs.Token.Quoting
import Screening.Proofs.Token.Scanning

/-!
# Shapes of compiled rules

Whatever compiles has passed every stage: its tokens are those of the text, the category admits
them, and they are read as the rule. The shape of the rule follows from the last two stages, and
that its strings can be put in quotes from the first.
-/

namespace Screening

open Admission Grammar

/-! ## Stages -/

/-- The stages that a compiled text has passed. -/
structure Passes (options : CompileOptions) (text : String) (category : Category)
    (ts : List Token) (rule : Rule) : Prop where
  scan : Token.scan text options.preserveLiteralCase = .ok ts
  check : Admission.check ts category = .ok ()
  read : Grammar.read ⟨category, options.maxDepth, text.utf8ByteSize⟩ ts = .ok rule

theorem exists_passes {options text category rule}
    (h : compile options text category = .ok rule) :
    ∃ ts, Passes options text category ts rule := by
  simp only [compile] at h
  split at h
  · cases h
  · split at h
    · cases h
    · obtain ⟨ts, hscan, h⟩ := bind_eq_ok.1 h
      obtain ⟨⟨⟩, hcheck, hread⟩ := bind_eq_ok.1 h
      exact ⟨ts, mapError_eq_ok.1 hscan, mapError_eq_ok.1 hcheck, mapError_eq_ok.1 hread⟩

/-- A text that says something, is short enough and whose tokens are admitted compiles as its
tokens are read. -/
theorem compile_eq_read {options : CompileOptions} {text : String} {category : Category}
    {ts : List Token} (hblank : Text.allBlank text = false)
    (hlength : text.utf8ByteSize ≤ options.maxLength)
    (hscan : Token.scan text options.preserveLiteralCase = .ok ts)
    (hcheck : check ts category = .ok ()) :
    compile options text category =
      (read ⟨category, options.maxDepth, text.utf8ByteSize⟩ ts).mapError .grammatical := by
  have hscanned : (Token.scan text options.preserveLiteralCase).mapError CompileError.lexical =
      .ok ts := mapError_eq_ok.2 hscan
  have hchecked : (check ts category).mapError CompileError.refused = .ok () :=
    mapError_eq_ok.2 hcheck
  simp only [compile, hblank, Nat.not_lt.2 hlength, Bool.false_eq_true, if_false, hscanned, ok_bind,
    hchecked]

namespace Passes

variable {options : CompileOptions} {text : String} {category : Category} {ts : List Token}
  {rule : Rule}

theorem generates (h : Passes options text category ts rule) :
    Generates category options.maxDepth ts rule :=
  generates_of_read h.read

theorem hasShape (h : Passes options text category ts rule) : rule.HasShape category :=
  h.generates.breach?_eq_none_iff.1 (check_eq_ok.1 h.check).2

theorem wellFormed (h : Passes options text category ts rule) : rule.WellFormed := by
  obtain ⟨_, hd⟩ := h.generates.derives
  exact hd.wellFormed

/-- The literals of the rule are denoted by lexemes of the text. -/
theorem quotable (h : Passes options text category ts rule)
    (hcase : options.preserveLiteralCase = true) :
    ∀ value, .literal value ∈ rule.nodes → value.Quotable := by
  intro value hv
  obtain ⟨_, hd⟩ := h.generates.derives
  obtain ⟨_, _, us, hsub, hnode⟩ := hd.of_mem_nodes hv
  obtain ⟨t, ht, hdenotes⟩ := hnode.exists_denotes rfl
  obtain ⟨q, hscans⟩ := Token.scan_eq_ok_iff.1 h.scan
  obtain ⟨x, hx, place, rfl⟩ := hscans.exists_lexeme t (hsub ht)
  rw [hcase] at hdenotes
  exact hx.quotable hdenotes

theorem printable (h : Passes options text category ts rule)
    (hcase : options.preserveLiteralCase = true) : rule.Printable where
  toWellFormed := h.wellFormed
  quotable := h.quotable hcase

end Passes

/-! ## Categories -/

/-- No tokens are free of breaches for two categories. -/
theorem eq_of_breach? {ts : List Token} {category other : Category}
    (h : breach? category ts = none) (h' : breach? other ts = none) : other = category := by
  have hthreshold := @breach?_threshold ts
  have hpattern := @breach?_pattern ts
  have hcomposite := @breach?_composite ts
  cases category <;> cases other <;> simp_all

/-- Everything that compiles has the shape that its category promises and is well-formed, and its
strings can be put in quotes if they kept their case. The same text compiles under no other
category. -/
theorem shape_of_compile (options : CompileOptions) (text : String) (category : Category)
    (rule : Rule) (h : compile options text category = .ok rule) :
    rule.HasShape category ∧ rule.WellFormed ∧
      (options.preserveLiteralCase = true →
        ∀ value, .literal value ∈ rule.nodes → value.Quotable) ∧
      ∀ other rule', compile options text other = .ok rule' → other = category := by
  obtain ⟨ts, hp⟩ := exists_passes h
  refine ⟨hp.hasShape, hp.wellFormed, hp.quotable, fun other rule' h' => ?_⟩
  obtain ⟨us, hp'⟩ := exists_passes h'
  -- the tokens do not depend on the category
  obtain rfl : ts = us := Except.ok.inj (hp.scan.symm.trans hp'.scan)
  exact eq_of_breach? (check_eq_ok.1 hp.check).2 (check_eq_ok.1 hp'.check).2

/-- A text with a group, a bare word, an integer of 64 bits and both negation and junctions. -/
theorem shape_of_compile_group :
    ∃ rule : Rule,
      compile {} "(amount > 2147483648 or not time = Night) and device_used = \"it's\""
        .composite = .ok rule ∧
      rule.HasShape .composite ∧ rule.WellFormed ∧
      (∀ value, .literal value ∈ rule.nodes → value.Quotable) ∧
      ∀ other rule', compile {} "(amount > 2147483648 or not time = Night) and device_used = \"it's\""
        other = .ok rule' → other = .composite := by
  let large : Rule := .comparison .greaterThan (.field .amount) (.literal (.int64 2147483648))
  let awake : Rule := .negation (.comparison .equal (.field .time) (.literal (.string "night")))
  let device : Rule := .comparison .equal (.field .deviceUsed) (.literal (.string "it's"))
  have h : compile {} "(amount > 2147483648 or not time = Night) and device_used = \"it's\""
      .composite = .ok (.junction .and (.junction .or large awake []) device []) := by
    decide +kernel
  obtain ⟨hshape, hw, hq, hunique⟩ := shape_of_compile _ _ _ _ h
  exact ⟨_, h, hshape, hw, hq rfl, hunique⟩

end Screening
