import Screening.Proofs.Compile.Stages
import Screening.Proofs.Grammar.Twins
import Screening.Proofs.Rule.Equality
import Screening.Proofs.Token.Respaced

/-!
# Other blanks

A text compiles as any other text that has the same tokens with other blanks between them: to the same
rule, or to an error that differs in its place only.
-/

namespace Screening

open Text Token

/-! ## Errors without their places -/

/-- The error without its place and that of the token that it tells of. -/
def SyntaxError.unplaced (e : SyntaxError) : SyntaxError :=
  ⟨e.category, none, e.fault.mapToken Token.unplaced⟩

/-- What is said about a token does not tell its place. -/
@[simp] theorem SyntaxError.detail_unplaced (e : SyntaxError) : e.unplaced.detail = e.detail := by
  obtain ⟨category, position, fault⟩ := e
  cases fault <;> rfl

@[simp] theorem SyntaxError.sample_unplaced (e : SyntaxError) : e.unplaced.sample = e.sample := by
  obtain ⟨category, position, fault⟩ := e
  cases fault <;> rfl

/-- The error without its place, if it is tied to one. -/
def CompileError.unplaced : CompileError → CompileError
  | lexical e => lexical { e with position := 0 }
  | grammatical e => grammatical e.unplaced
  | e => e

/-! ## Reading -/

namespace Grammar

variable (category : Category) (d m n : Nat)

/-- The same tokens at other places, with another end. -/
def respacings : Twins where
  first := ⟨category, d, m⟩
  second := ⟨category, d, n⟩
  Match t u := t.unplaced = u.unplaced
  Text := (· = ·)
  category := rfl
  kind h := (unplaced_eq_iff.1 h).1
  text h _ := (unplaced_eq_iff.1 h).2
  body h _ := by
    rw [(unplaced_eq_iff.1 h).2]
    cases unquote? _ with
    | none => exact .none
    | some body => exact .some rfl
  refl _ := rfl

/-- What is read from tokens at other places is the same but for the places. -/
theorem read_unplaced {ts us : List Token} (h : ts.map unplaced = us.map unplaced) :
    (read ⟨category, d, m⟩ ts).mapError SyntaxError.unplaced =
      (read ⟨category, d, n⟩ us).mapError SyntaxError.unplaced := by
  have hmatch : List.Forall₂ (respacings category d m n).Match ts us := by
    have hequal : List.Forall₂ (· = ·) (ts.map unplaced) (us.map unplaced) := by
      rw [List.forall₂_eq_eq_eq, h]
    rwa [List.forall₂_map_left_iff, List.forall₂_map_right_iff] at hequal
  have hout := Twins.read_outcome monotone_const (Twins.innerAt_parallel rfl d) hmatch
  change Twins.Outcome (respacings category d m n) _ _ (read ⟨category, d, m⟩ ts)
    (read ⟨category, d, n⟩ us) at hout
  generalize read ⟨category, d, m⟩ ts = x at hout ⊢
  generalize read ⟨category, d, n⟩ us = y at hout ⊢
  cases hout with
  | ok hab => rw [Rule.alike_eq_iff.1 hab]
  | failed he =>
    cases he with
    | token htu hf =>
      have hfault := hf.mapToken_eq (fun t u htu => (unplaced_eq_iff.1 htu).2) fun _ _ htu => htu
      simp only [Except.mapError, SyntaxError.unplaced, hfault]
      rfl
    | finish wanted => rfl
    | tooDeep htu => rfl
  | exceeded hshort => exact hshort.elim

end Grammar

/-! ## Compiling -/

variable {options : CompileOptions} {s u : String} {category : Category}

/-- Of a text that is scanned and short enough the tokens alone decide whether it is let through. -/
theorem admitted_eq_check {ts : List Token} (hlength : s.utf8ByteSize ≤ options.maxLength)
    (hscan : scan s options.preserveLiteralCase = .ok ts) :
    admitted options s category =
      if ts.isEmpty then .error .blank
      else ((Admission.check ts category).mapError .refused).map fun _ => ts := by
  simp only [admitted, allBlank_of_scan hscan, if_neg (Nat.not_lt.2 hlength), hscan]
  cases ts.isEmpty with
  | true => rfl
  | false => cases hcheck : Admission.check ts category <;> simp [Except.mapError, hcheck] <;> rfl

theorem mapError_grammatical (result : Except SyntaxError Rule) :
    (result.mapError .grammatical).mapError CompileError.unplaced =
      (result.mapError SyntaxError.unplaced).mapError .grammatical := by
  cases result <;> rfl

/-- Texts of the same tokens compile to the same rule, or fail for the same cause. -/
theorem compile_unplaced {ts us : List Token} (hlength : s.utf8ByteSize ≤ options.maxLength)
    (hlength' : u.utf8ByteSize ≤ options.maxLength)
    (hscan : scan s options.preserveLiteralCase = .ok ts)
    (hscan' : scan u options.preserveLiteralCase = .ok us)
    (h : ts.map unplaced = us.map unplaced) :
    (compile options s category).mapError CompileError.unplaced =
      (compile options u category).mapError CompileError.unplaced := by
  have hempty : ts.isEmpty = us.isEmpty := by
    rw [← List.isEmpty_map (f := unplaced), h, List.isEmpty_map]
  have hcheck : Admission.check ts category = Admission.check us category := by
    rw [← keeps_unplaced.check ts, h, keeps_unplaced.check us]
  have hread := Grammar.read_unplaced category options.maxDepth s.utf8ByteSize u.utf8ByteSize h
  rw [compile_eq_admitted, compile_eq_admitted, admitted_eq_check hlength hscan,
    admitted_eq_check hlength' hscan', hempty, hcheck]
  split
  · rfl
  · cases Admission.check us category with
    | error refusal => rfl
    | ok =>
      change ((Grammar.read _ ts).mapError CompileError.grammatical).mapError _ =
        ((Grammar.read _ us).mapError CompileError.grammatical).mapError _
      rw [mapError_grammatical, mapError_grammatical, hread]

/-- Blanks do not matter, as long as they keep the tokens apart. A text that is written anew from the
texts of the tokens of another one, with any blanks between them and at both ends, is scanned as
tokens of the same kinds and texts. If neither is too long they compile to the same rule, or to errors
that differ in their places only. -/
theorem compile_spread (s u : String) (ts : List Token) (hs : scan s = .ok ts)
    (hu : Spread (ts.map Token.text) u.toList) :
    (∃ us, scan u = .ok us ∧ us.map Token.kind = ts.map Token.kind ∧
      us.map Token.text = ts.map Token.text) ∧
    ∀ (options : CompileOptions) (category : Category),
      s.utf8ByteSize ≤ options.maxLength → u.utf8ByteSize ≤ options.maxLength →
      (compile options s category).mapError CompileError.unplaced =
        (compile options u category).mapError CompileError.unplaced := by
  constructor
  · obtain ⟨vs, us, hscan, hscan', heq⟩ := scan_of_spread hs hu true
    obtain rfl : ts = vs := Except.ok.inj (hs.symm.trans hscan)
    exact ⟨us, hscan', map_eq_of_unplaced heq⟩
  · intro options category hlength hlength'
    obtain ⟨vs, us, hscan, hscan', heq⟩ := scan_of_spread hs hu options.preserveLiteralCase
    exact compile_unplaced hlength hlength' hscan hscan' heq.symm

/-- There can be more blanks and others, but not within a string or an operator. -/
theorem compile_spread_quotes : ∃ ts, scan "TIME!=\"it's  so\"OR AMOUNT>-12." = .ok ts ∧
    Spread (ts.map Token.text) "\tTIME != \"it's  so\"\nOR\r\nAMOUNT > -12. ".toList ∧
    (∃ us, scan "\tTIME != \"it's  so\"\nOR\r\nAMOUNT > -12. " = .ok us ∧
      us.map Token.kind = ts.map Token.kind ∧ us.map Token.text = ts.map Token.text) ∧
    (compile {} "TIME!=\"it's  so\"OR AMOUNT>-12." .composite).mapError CompileError.unplaced =
      (compile {} "\tTIME != \"it's  so\"\nOR\r\nAMOUNT > -12. " .composite).mapError
        CompileError.unplaced := by
  let ts : List Token := [⟨.field, "TIME", 0⟩, ⟨.comparisonOp, "!=", 4⟩,
    ⟨.string, "\"it's  so\"", 6⟩, ⟨.logicOp, "OR", 16⟩, ⟨.field, "AMOUNT", 19⟩,
    ⟨.comparisonOp, ">", 25⟩, ⟨.number, "-12.", 26⟩]
  have hscan : scan "TIME!=\"it's  so\"OR AMOUNT>-12." = .ok ts := by decide +kernel
  have hspread : Spread (ts.map Token.text)
      "\tTIME != \"it's  so\"\nOR\r\nAMOUNT > -12. ".toList := by
    have hwords := Spread.blank (c := '\t') rfl <| .front "TIME" (c := ' ') rfl <|
      .front "!=" (c := ' ') rfl <| .front "\"it's  so\"" (c := '\n') rfl <|
      .front "OR" (c := '\r') rfl <| .blank (c := '\n') rfl <| .front "AMOUNT" (c := ' ') rfl <|
      .front ">" (c := ' ') rfl <| .front "-12." (c := ' ') rfl .nil
    refine Eq.mp (congrArg (Spread _) ?_) hwords
    decide
  obtain ⟨hscans, hcompile⟩ := compile_spread _ _ ts hscan hspread
  exact ⟨ts, hscan, hspread, hscans, hcompile {} .composite (by decide) (by decide)⟩

end Screening
