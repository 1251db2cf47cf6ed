import Screening.Proofs.Compile.Position
import Screening.Proofs.Token.Respaced

/-!
# Compiling step by step

Scanning, admission and reading can also be run one after the other, and then the tokens are all that the
reader knows of the text. The outcome is the same as that of compiling in one call, except for the place
of the end: it is the end of the text in one call, and the end of the last token step by step. Both are
one place unless there are blanks behind the last token.
-/

namespace Screening

open Text Token

/-- Compiles an expression step by step. -/
def compileStepwise (text : String) (category : Category) : Except CompileError Rule := do
  let tokens ← (Token.scan text).mapError .lexical
  (Admission.check tokens category).mapError .refused
  (Rule.ofTokens tokens category).mapError .grammatical

/-! ## Another end -/

/-- The error with another place for the end, if it says that the expression ended too early. -/
def SyntaxError.endAt (place : Nat) (e : SyntaxError) : SyntaxError :=
  match e.fault with
  | .unexpectedEnd _ => { e with position := some place }
  | _ => e

/-- The error with another place for the end, if it is a syntax error. -/
def CompileError.endAt (place : Nat) : CompileError → CompileError
  | grammatical e => grammatical (e.endAt place)
  | e => e

namespace SyntaxError

theorem endAt_of_ne {e : SyntaxError} (h : ∀ wanted, e.fault ≠ .unexpectedEnd wanted)
    (place : Nat) : e.endAt place = e := by
  rw [endAt]
  split
  · next wanted hw => exact absurd hw (h wanted)
  · rfl

/-- An error that is at the place already does not change. -/
theorem endAt_of_position {e : SyntaxError} {place : Nat} (h : e.position = some place) :
    e.endAt place = e := by
  rw [endAt]
  split
  · rw [← h]
  · rfl

end SyntaxError

theorem mapError_mapError {ε ε' ε'' α : Type} (f : ε → ε') (g : ε' → ε'') (x : Except ε α) :
    (x.mapError f).mapError g = x.mapError (g ∘ f) := by
  cases x <;> rfl

/-! ## Reading up to another end -/

namespace Grammar

/-- The same tokens read with another end. -/
def ends (category : Category) (d m n : Nat) (ts : List Token) : Twins :=
  { limits category m ts d d with second := ⟨category, d, n⟩ }

/-- The place of the end matters to the errors that tell of it, and to nothing else. -/
theorem read_endAt (category : Category) (d m n : Nat) (ts : List Token) :
    read ⟨category, d, n⟩ ts = (read ⟨category, d, m⟩ ts).mapError (SyntaxError.endAt n) := by
  have hsame : List.Forall₂ (ends category d m n ts).Match ts ts :=
    List.forall₂_same.2 fun t ht => ⟨rfl, ht⟩
  have hout := Twins.read_outcome monotone_const (Twins.innerAt_parallel rfl d) hsame
  change Twins.Outcome _ _ _ (read ⟨category, d, m⟩ ts) (read ⟨category, d, n⟩ ts) at hout
  generalize read ⟨category, d, m⟩ ts = x at hout ⊢
  generalize read ⟨category, d, n⟩ ts = y at hout ⊢
  cases hout with
  | ok hab =>
    rw [Rule.alike_eq_iff.1 hab]
    rfl
  | failed he =>
    cases he with
    | @token t u f g htu hf =>
      obtain rfl : f = g := hf.eq fun t u htu => htu.1
      have hne : ∀ wanted, f ≠ .unexpectedEnd wanted := hf.ne_unexpectedEnd
      rw [← htu.1, Except.mapError, SyntaxError.endAt_of_ne hne]
      rfl
    | finish wanted => rfl
    | tooDeep htu =>
      rw [← htu.1]
      rfl
  | exceeded hshort => exact hshort.elim

end Grammar

/-! ## The end of the last token -/

/-- Behind the last token there are blanks only. -/
theorem Token.Scans.exists_blanks {p q : Nat} {cs rest : List Char} {ts : List Token}
    (h : Scans true p cs ts q rest) (hrest : rest = []) :
    ∃ before blanks, cs = before ++ blanks ∧ (∀ c ∈ blanks, isSpace c = true) ∧
      (ts = [] → before = []) ∧ ∀ t ∈ ts.getLast?, t.finish = p + byteLength before := by
  induction h with
  | done => exact ⟨[], [], by simp [hrest], by simp, fun _ => rfl, by simp⟩
  | @space p c cs ts q rest hc _ ih =>
    obtain ⟨before, blanks, rfl, hblanks, hnone, hlast⟩ := ih hrest
    cases ts with
    | nil =>
      obtain rfl := hnone rfl
      exact ⟨[], c :: blanks, rfl, List.forall_mem_cons.2 ⟨hc, hblanks⟩, fun _ => rfl, by simp⟩
    | cons t ts =>
      refine ⟨c :: before, blanks, rfl, hblanks, by simp, fun u hu => ?_⟩
      rw [hlast u hu, byteLength, Nat.add_assoc]
  | @lexeme p cs x ts q rest hx _ ih =>
    obtain ⟨before, blanks, hbehind, hblanks, hnone, hlast⟩ := ih hrest
    refine ⟨x.raw ++ before, blanks, ?_, hblanks, by simp, fun u hu => ?_⟩
    · rw [(Lexeme.front?_eq_some hx).1, hbehind, List.append_assoc]
    · cases ts with
      | nil =>
        obtain rfl := hnone rfl
        obtain rfl : x.token true p = u := by simpa using hu
        rw [finish_token, List.append_nil]
      | cons t ts =>
        rw [hlast u (by simpa using hu), byteLength_append, Nat.add_assoc]

/-- The text ends with the last token, or with blanks behind it. -/
theorem Token.finishOf_of_scan {text : String} {ts : List Token} (h : scan text = .ok ts)
    (hne : ts ≠ []) :
    ∃ before blanks, text.toList = before ++ blanks ∧ (∀ c ∈ blanks, isSpace c = true) ∧
      finishOf ts = byteLength before := by
  obtain ⟨q, hs⟩ := scan_eq_ok_iff.1 h
  obtain ⟨before, blanks, htext, hblanks, -, hlast⟩ := hs.exists_blanks rfl
  refine ⟨before, blanks, htext, hblanks, ?_⟩
  rw [finishOf, List.getLast?_eq_some_getLast hne, Option.map_some, Option.getD_some,
    hlast _ (List.getLast?_eq_some_getLast hne), Nat.zero_add]

/-! ## One call and many -/

/-- Compiling a text in one call and compiling it step by step agree. -/
structure AgreesStepwise (text : String) (category : Category) : Prop where
  /-- The outcomes differ at most in the place that is given for the end. In one call it is the end of
  the text. -/
  outcome : compile {} text category =
    (compileStepwise text category).mapError (CompileError.endAt text.utf8ByteSize)
  /-- Step by step it is the end of the last token, with blanks only behind it. -/
  finish : ∀ e, compileStepwise text category = .error (.grammatical e) → e.SaysEnd →
    ∃ ts t before blanks, scan text = .ok ts ∧ ts.getLast? = some t ∧
      e.position = some t.finish ∧ t.finish = byteLength before ∧
      text.toList = before ++ blanks ∧ ∀ c ∈ blanks, isSpace c = true
  /-- If the text does not end with a blank, there is no difference. -/
  ended : (∀ c ∈ text.toList.getLast?, isSpace c = false) →
    compile {} text category = compileStepwise text category
  /-- The tokens that are read are never none. -/
  tokens : ∀ keepCase ts, scan text keepCase = .ok ts → ts ≠ []

section

variable {text : String} {category : Category}

/-- A text that says something and is short enough is scanned, admitted and read. -/
theorem compile_eq_of_fits {options : CompileOptions} (hblank : allBlank text = false)
    (hlength : text.utf8ByteSize ≤ options.maxLength) :
    compile options text category = (do
      let tokens ← (scan text options.preserveLiteralCase).mapError .lexical
      (Admission.check tokens category).mapError .refused
      (Grammar.read ⟨category, options.maxDepth, text.utf8ByteSize⟩ tokens).mapError
        .grammatical) := by
  simp only [compile, hblank, if_neg (Nat.not_lt.2 hlength)]
  rfl

theorem ne_nil_of_scan (hblank : allBlank text = false) {keepCase : Bool} {ts : List Token}
    (h : scan text keepCase = .ok ts) : ts ≠ [] := by
  rintro rfl
  rw [allBlank_of_scan h] at hblank
  cases hblank

/-- The stages before the reading know nothing of the end. -/
theorem compile_eq_endAt (hblank : allBlank text = false) (hlength : text.utf8ByteSize ≤ 4096) :
    compile {} text category =
      (compileStepwise text category).mapError (CompileError.endAt text.utf8ByteSize) := by
  rw [compile_eq_of_fits hblank hlength, compileStepwise]
  cases scan text with
  | error e => rfl
  | ok ts =>
    cases hcheck : Admission.check ts category with
    | error refusal => simp only [Except.mapError, ok_bind, hcheck]; rfl
    | ok =>
      have hread := Grammar.read_endAt category 64 (finishOf ts) text.utf8ByteSize ts
      simp only [Except.mapError, ok_bind, hcheck]
      change (Grammar.read ⟨category, 64, text.utf8ByteSize⟩ ts).mapError CompileError.grammatical =
        ((Grammar.read ⟨category, 64, finishOf ts⟩ ts).mapError CompileError.grammatical).mapError _
      rw [hread, mapError_mapError, mapError_mapError]
      rfl

/-- Step by step an error that tells of the end is tied to the end of the last token. -/
theorem position_of_stepwise (hblank : allBlank text = false) {e : SyntaxError}
    (h : compileStepwise text category = .error (.grammatical e)) (hend : e.SaysEnd) :
    ∃ ts, scan text = .ok ts ∧ ts ≠ [] ∧ e.position = some (finishOf ts) := by
  rcases bind_eq_error.1 h with hscan | ⟨ts, hscan, h⟩
  · obtain ⟨_, -, heq⟩ := mapError_eq_error.1 hscan
    cases heq
  have hscan := mapError_eq_ok.1 hscan
  rcases bind_eq_error.1 h with hcheck | ⟨_, -, h⟩
  · obtain ⟨_, -, heq⟩ := mapError_eq_error.1 hcheck
    cases heq
  obtain ⟨e', hread, heq⟩ := mapError_eq_error.1 h
  cases heq
  refine ⟨ts, hscan, ne_nil_of_scan hblank hscan, ?_⟩
  cases Grammar.blames_of_read hread with
  | token _ hfault =>
    obtain ⟨wanted, hw⟩ := SyntaxError.saysEnd_iff.1 hend
    exact absurd hw (hfault wanted)
  | finish wanted => rfl

/-- Of a text that does not end with a blank the end is that of its last token. -/
theorem finishOf_eq_of_ended (hended : ∀ c ∈ text.toList.getLast?, isSpace c = false)
    {ts : List Token} (hscan : scan text = .ok ts) (hne : ts ≠ []) :
    finishOf ts = text.utf8ByteSize := by
  obtain ⟨before, blanks, htext, hblanks, hfinish⟩ := finishOf_of_scan hscan hne
  rcases List.eq_nil_or_concat blanks with rfl | ⟨blanks, c, rfl⟩
  · rw [hfinish, ← byteLength_toList, htext, List.append_nil]
  · have hspace : isSpace c = true := hblanks c (by simp)
    have hlast : isSpace c = false := hended c (by rw [htext]; simp)
    rw [hspace] at hlast
    cases hlast

end

/-- Compiling a text in one call is scanning it, admitting its tokens and reading them: the same rule or
the same first error. There is one difference, and only if the text ends with blanks: an error that says
the expression ended too early is tied to the end of the text in one call, and to the end of the last
token step by step. There is always a token to read. -/
theorem agreesStepwise (text : String) (category : Category) (hblank : allBlank text = false)
    (hlength : text.utf8ByteSize ≤ 4096) : AgreesStepwise text category where
  outcome := compile_eq_endAt hblank hlength
  finish e h hend := by
    obtain ⟨ts, hscan, hne, hposition⟩ := position_of_stepwise hblank h hend
    obtain ⟨before, blanks, htext, hblanks, hfinish⟩ := finishOf_of_scan hscan hne
    have hlast : finishOf ts = (ts.getLast hne).finish := by
      rw [finishOf, List.getLast?_eq_some_getLast hne]
      rfl
    exact ⟨ts, ts.getLast hne, before, blanks, hscan, List.getLast?_eq_some_getLast hne,
      hlast ▸ hposition, hlast ▸ hfinish, htext, hblanks⟩
  ended hended := by
    rw [compile_eq_endAt hblank hlength]
    cases h : compileStepwise text category with
    | ok rule => rfl
    | error e =>
      cases e with
      | grammatical e =>
        by_cases hend : e.SaysEnd
        · obtain ⟨ts, hscan, hne, hposition⟩ := position_of_stepwise hblank h hend
          rw [finishOf_eq_of_ended hended hscan hne] at hposition
          rw [Except.mapError, CompileError.endAt, SyntaxError.endAt_of_position hposition]
        · have hne : ∀ wanted, e.fault ≠ .unexpectedEnd wanted :=
            fun wanted hw => hend (SyntaxError.saysEnd_iff.2 ⟨wanted, hw⟩)
          rw [Except.mapError, CompileError.endAt, SyntaxError.endAt_of_ne hne]
      | _ => rfl
  tokens _ _ := ne_nil_of_scan hblank

/-- Two blanks behind the last token. -/
theorem agreesStepwise_blanks :
    allBlank "AMOUNT >\n " = false ∧ "AMOUNT >\n ".utf8ByteSize ≤ 4096 ∧
      compile {} "AMOUNT >\n " .threshold =
        .error (.grammatical ⟨.threshold, some 10, .unexpectedEnd .operand⟩) ∧
      compileStepwise "AMOUNT >\n " .threshold =
        .error (.grammatical ⟨.threshold, some 8, .unexpectedEnd .operand⟩) ∧
      AgreesStepwise "AMOUNT >\n " .threshold :=
  ⟨by decide, by decide, rfl, rfl, agreesStepwise _ .threshold (by decide) (by decide)⟩

end Screening
