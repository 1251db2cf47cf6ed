import Screening.Compile
import Screening.Proofs.Grammar.Reader

/-!
# Stages of compiling

Compiling is reading the tokens that were let through. What comes before the reading knows no limit on
nesting, and fails for other causes than the reader.
-/

namespace Screening

/-- A sequence fails exactly if its first step does, or else its second. -/
theorem bind_eq_error {ε α β : Type} {x : Except ε α} {f : α → Except ε β} {e : ε} :
    x >>= f = .error e ↔ x = .error e ∨ ∃ a, x = .ok a ∧ f a = .error e := by
  cases x <;> simp [Bind.bind, Except.bind]

theorem mapError_eq_error {ε ε' α : Type} {f : ε → ε'} {result : Except ε α} {e : ε'} :
    result.mapError f = .error e ↔ ∃ e', result = .error e' ∧ f e' = e := by
  cases result with
  | error e' =>
    constructor
    · intro h
      exact ⟨e', rfl, Except.error.inj h⟩
    · intro h
      obtain ⟨_, heq, rfl⟩ := h
      cases heq
      rfl
  | ok a => exact ⟨nofun, nofun⟩

/-- The tokens of a text that says something and is short enough, if they may be read. -/
def admitted (options : CompileOptions) (text : String) (category : Category) :
    Except CompileError (List Token) := do
  if Text.allBlank text then throw .blank
  if options.maxLength < text.utf8ByteSize then
    throw (.grammatical ⟨category, none, .tooLong text.utf8ByteSize options.maxLength⟩)
  let tokens ← (Token.scan text options.preserveLiteralCase).mapError .lexical
  (Admission.check tokens category).mapError .refused
  return tokens

variable {options : CompileOptions} {text : String} {category : Category}

/-- Compiling is admission and then reading. -/
theorem compile_eq_admitted (options : CompileOptions) (text : String) (category : Category) :
    compile options text category = (do
      let tokens ← admitted options text category
      (Grammar.read ⟨category, options.maxDepth, text.utf8ByteSize⟩ tokens).mapError
        .grammatical) := by
  simp only [compile, admitted]
  split
  · rfl
  · split
    · rfl
    · cases (Token.scan text options.preserveLiteralCase).mapError CompileError.lexical with
      | error e => rfl
      | ok tokens =>
        simp only [ok_bind]
        cases (Admission.check tokens category).mapError CompileError.refused <;> rfl

/-- Tokens that were let through are those of the text. -/
theorem scan_of_admitted {ts : List Token} (h : admitted options text category = .ok ts) :
    Token.scan text options.preserveLiteralCase = .ok ts := by
  simp only [admitted] at h
  split at h
  · cases h
  · split at h
    · cases h
    · obtain ⟨tokens, hscan, h⟩ := bind_eq_ok.1 h
      obtain ⟨⟨⟩, -, h⟩ := bind_eq_ok.1 h
      cases h
      exact mapError_eq_ok.1 hscan

/-- Their text is not too long. -/
theorem length_le_of_admitted {ts : List Token} (h : admitted options text category = .ok ts) :
    text.utf8ByteSize ≤ options.maxLength := by
  simp only [admitted] at h
  split at h
  · cases h
  · split at h
    · cases h
    · next hlong => exact Nat.le_of_not_lt hlong

/-- The errors before the reading. -/
theorem cases_of_admitted {e : CompileError} (h : admitted options text category = .error e) :
    e = .blank ∨ (∃ refusal, e = .refused refusal) ∨
      (∃ f, e = .lexical f ∧ Token.scan text options.preserveLiteralCase = .error f) ∨
      e = .grammatical ⟨category, none, .tooLong text.utf8ByteSize options.maxLength⟩ ∧
        options.maxLength < text.utf8ByteSize := by
  simp only [admitted] at h
  split at h
  · cases h
    exact .inl rfl
  · split at h
    · next hlong =>
      cases h
      exact .inr (.inr (.inr ⟨rfl, hlong⟩))
    · rcases bind_eq_error.1 h with hscan | ⟨ts, -, h⟩
      · obtain ⟨f, hf, rfl⟩ := mapError_eq_error.1 hscan
        exact .inr (.inr (.inl ⟨f, rfl, hf⟩))
      · rcases bind_eq_error.1 h with hcheck | ⟨⟨⟩, -, h⟩
        · obtain ⟨refusal, -, rfl⟩ := mapError_eq_error.1 hcheck
          exact .inr (.inl ⟨refusal, rfl⟩)
        · cases h

/-- The one syntax error before the reading is that the text is too long. -/
theorem fault_of_admitted {e : SyntaxError}
    (h : admitted options text category = .error (.grammatical e)) :
    e.fault = .tooLong text.utf8ByteSize options.maxLength := by
  rcases cases_of_admitted h with hblank | ⟨_, hrefused⟩ | ⟨_, hlexical, -⟩ | ⟨hlong, -⟩
  · cases hblank
  · cases hrefused
  · cases hlexical
  · cases hlong
    rfl

end Screening
