import Screening.Proofs.Compile.Limit
import Screening.Proofs.Token.Failure

/-!
# The places of errors

Where an error is tied to a place, that is the place of a token, of a character that begins no lexeme,
or the end of the text. The end of the text is told exactly by those errors that say it was reached
too early.
-/

namespace Screening

open Text Token

/-! ## What is said at the end -/

/-- The message says that the expression ended too early. -/
def SyntaxError.SaysEnd (e : SyntaxError) : Prop :=
  "unexpected end of expression".toList <+: e.detail.toList

/-- Texts that part at a character do not begin alike. -/
theorem not_prefix_of_ne {p as bs rest : List Char} {a b : Char} (h : a ≠ b) :
    ¬(String.ofList (p ++ a :: as)).toList <+: (String.ofList (p ++ b :: bs)).toList ++ rest := by
  simp [String.toList_ofList, List.cons_prefix_cons, h]

/-- The words for a token do not begin like the words for the end. -/
theorem Token.describe_ne_end (t : Token) (rest : List Char) :
    ¬"end of expression".toList <+: t.describe.toList ++ rest := by
  obtain ⟨kind, text, position⟩ := t
  intro h
  cases kind <;>
    simp only [describe, TokenKind.describe, String.toList_append, List.append_assoc] at h <;>
    exact absurd h (not_prefix_of_ne (p := []) (a := 'e') (by decide))

/-- Only one cause is told in words that begin so. -/
theorem SyntaxFault.text_end_iff {f : SyntaxFault} :
    "unexpected end of expression".toList <+: f.text.toList ↔ ∃ wanted, f = .unexpectedEnd wanted := by
  constructor
  · intro h
    -- the wording is opened for one cause at a time, since its equations for all causes are costly
    cases f with
    | unexpectedEnd wanted => exact ⟨wanted, rfl⟩
    | noOperand token =>
      have hsplit : "unexpected end of expression" = "unexpected " ++ "end of expression" := by
        decide
      delta SyntaxFault.text at h
      simp only [hsplit, String.toList_append, List.append_assoc] at h
      exact absurd ((List.prefix_append_right_inj _).1 h) (token.describe_ne_end _)
    | unknownField | unknownFunction | unknownComparator =>
      delta SyntaxFault.text at h
      simp only [String.toList_append, List.append_assoc] at h
      exact absurd h (not_prefix_of_ne (p := ['u', 'n']) (a := 'e') (by decide))
    | strayWildcard =>
      delta SyntaxFault.text at h
      exact absurd (h.trans (List.prefix_append _ []))
        (not_prefix_of_ne (p := []) (a := 'u') (b := '\x27') (by decide))
    | noLiteral rule =>
      delta SyntaxFault.text at h
      cases rule <;>
        simp only [String.toList_append] at h <;>
        exact absurd h (not_prefix_of_ne (p := []) (a := 'u') (by decide))
    | _ =>
      delta SyntaxFault.text at h
      simp only [String.toList_append, List.append_assoc] at h
      exact absurd h (not_prefix_of_ne (p := []) (a := 'u') (by decide))
  · rintro ⟨wanted, rfl⟩
    have hsplit : toString "unexpected end of expression, expected " =
        "unexpected end of expression" ++ ", expected " := by
      decide
    delta SyntaxFault.text
    simp only [hsplit, String.toList_append, List.append_assoc]
    exact List.prefix_append _ _

theorem SyntaxError.saysEnd_iff {e : SyntaxError} :
    e.SaysEnd ↔ ∃ wanted, e.fault = .unexpectedEnd wanted :=
  SyntaxFault.text_end_iff

/-! ## Errors of reading -/

/-- An end that comes too early is no matter of a token. -/
theorem SyntaxFault.Alike.ne_unexpectedEnd {T : Token → Token → Prop}
    {S : String → String → Prop} {f g : SyntaxFault} (h : f.Alike T S g) (wanted : Wanted) :
    f ≠ .unexpectedEnd wanted := by
  cases h <;> exact SyntaxFault.noConfusion

namespace Grammar

/-- The error is tied to one of the tokens, or it is tied to the end and says so. -/
inductive Blames (s : Setting) (ts : List Token) : SyntaxError → Prop
  | token {t : Token} {fault : SyntaxFault} : t ∈ ts → (∀ wanted, fault ≠ .unexpectedEnd wanted) →
      Blames s ts ⟨s.category, some t.position, fault⟩
  | finish (wanted : Wanted) : Blames s ts ⟨s.category, some s.finish, .unexpectedEnd wanted⟩

theorem blames_of_outcome {s : Setting} {ts : List Token} {e : SyntaxError} {short : Prop}
    {A : Rule → Rule → Prop} {y : Except SyntaxError Rule}
    (h : (limits s.category s.finish ts s.maxDepth s.maxDepth).Outcome short A (.error e) y) :
    Blames s ts e := by
  cases h with
  | failed he =>
    cases he with
    | token htu hf => exact .token htu.2 hf.ne_unexpectedEnd
    | finish wanted => exact .finish wanted
    | tooDeep htu => exact .token htu.2 fun _ => SyntaxFault.noConfusion
  | exceeded _ htu => exact .token htu.2 fun _ => SyntaxFault.noConfusion

/-- The tokens read beside themselves show which of them an error is tied to. -/
theorem blames_of_read {s : Setting} {ts : List Token} {e : SyntaxError}
    (h : read s ts = .error e) : Blames s ts e := by
  have hout := limits_outcome s.category s.finish ts (Nat.le_refl s.maxDepth)
  rw [h] at hout
  exact blames_of_outcome hout

end Grammar

/-! ## Places of tokens -/

/-- The place is that of a character of the text, or its end. -/
def IsPlace (text : String) (place : Nat) : Prop :=
  ∃ before after, text.toList = before ++ after ∧ place = byteLength before

theorem IsPlace.le {text : String} {place : Nat} (h : IsPlace text place) :
    place ≤ text.utf8ByteSize := by
  obtain ⟨before, after, htext, rfl⟩ := h
  rw [← byteLength_toList, htext, byteLength_append]
  exact Nat.le_add_right _ _

theorem isPlace_end (text : String) : IsPlace text text.utf8ByteSize :=
  ⟨text.toList, [], (List.append_nil _).symm, (byteLength_toList text).symm⟩

/-- A token stands at a character. -/
theorem Token.Scans.exists_character {keepCase : Bool} {p q : Nat} {cs rest : List Char}
    {ts : List Token} (h : Scans keepCase p cs ts q rest) :
    ∀ t ∈ ts, ∃ before c after, cs = before ++ c :: after ∧ t.position = p + byteLength before := by
  induction h with
  | done => simp
  | @space p c cs ts q rest _ _ ih =>
    intro t ht
    obtain ⟨before, d, after, rfl, hp⟩ := ih t ht
    exact ⟨c :: before, d, after, rfl, by rw [hp, byteLength, Nat.add_assoc]⟩
  | @lexeme p cs x ts q rest hx _ ih =>
    obtain ⟨hcs, hshape⟩ := Lexeme.front?_eq_some hx
    refine List.forall_mem_cons.2 ⟨?_, fun t ht => ?_⟩
    · obtain ⟨c, raw, hraw, -⟩ := hshape.not_space
      exact ⟨[], c, raw ++ x.rest, by rw [hcs, hraw]; rfl, rfl⟩
    · obtain ⟨before, d, after, hrest, hp⟩ := ih t ht
      refine ⟨x.raw ++ before, d, after, by rw [hcs, hrest, List.append_assoc], ?_⟩
      rw [hp, byteLength_append, Nat.add_assoc]

variable {options : CompileOptions} {text : String} {category : Category}

theorem isPlace_of_scan {keepCase : Bool} {ts : List Token} (h : scan text keepCase = .ok ts)
    {t : Token} (ht : t ∈ ts) : IsPlace text t.position ∧ t.position < text.utf8ByteSize := by
  obtain ⟨q, hs⟩ := scan_eq_ok_iff.1 h
  obtain ⟨before, c, after, htext, hp⟩ := hs.exists_character t ht
  rw [Nat.zero_add] at hp
  refine ⟨⟨before, c :: after, htext, hp⟩, ?_⟩
  rw [hp, ← byteLength_toList, htext, byteLength_append, byteLength]
  have := c.utf8Size_pos
  omega

/-! ## Errors of compiling -/

/-- Where the error of a text is tied to. -/
structure CompileError.Placed (options : CompileOptions) (text : String) (e : CompileError) :
    Prop where
  /-- A syntax error is tied to no place exactly if the text is too long. -/
  tooLong : ∀ f, e = .grammatical f → (f.position = none ↔ options.maxLength < text.utf8ByteSize)
  /-- Otherwise it is tied to a token or to the end of the text. -/
  token : ∀ f, e = .grammatical f → ∀ p, f.position = some p → p = text.utf8ByteSize ∨
    ∃ ts t, scan text options.preserveLiteralCase = .ok ts ∧ t ∈ ts ∧ p = t.position
  /-- It is tied to the end exactly if it says that the expression ended too early. -/
  finish : ∀ f, e = .grammatical f → (f.position = some text.utf8ByteSize ↔ f.SaysEnd)
  /-- A lexical error is tied to the character that the scan is stuck at. -/
  lexical : ∀ f, e = .lexical f → ∃ before rest,
    Stuck text before f.character rest ∧ e.position = some (byteLength before)
  /-- Other errors are tied to no place. -/
  other : e = .blank ∨ (∃ refusal, e = .refused refusal) → e.position = none
  /-- Every place is one of the text. -/
  isPlace : ∀ p, e.position = some p → IsPlace text p ∧ p ≤ text.utf8ByteSize

namespace CompileError

/-- A syntax error that is tied to a place of the text. -/
theorem placed_grammatical {e : SyntaxError} {p : Nat} (hp : e.position = some p)
    (hlength : text.utf8ByteSize ≤ options.maxLength)
    (htoken : p = text.utf8ByteSize ∨
      ∃ ts t, scan text options.preserveLiteralCase = .ok ts ∧ t ∈ ts ∧ p = t.position)
    (hend : p = text.utf8ByteSize ↔ e.SaysEnd) (hplace : IsPlace text p) :
    Placed options text (.grammatical e) where
  tooLong f hf := by
    cases hf
    simp [hp, hlength]
  token f hf q hq := by
    cases hf
    obtain rfl : p = q := Option.some.inj (hp.symm.trans hq)
    exact htoken
  finish f hf := by
    cases hf
    rw [hp, Option.some.injEq]
    exact hend
  lexical f hf := by cases hf
  other h := by rcases h with h | ⟨_, h⟩ <;> cases h
  isPlace q hq := by
    obtain rfl : p = q := Option.some.inj (hp.symm.trans hq)
    exact ⟨hplace, hplace.le⟩

/-- An error of reading is tied to a token or to the end. -/
theorem placed_of_blames {ts : List Token} {e : SyntaxError}
    (hlength : text.utf8ByteSize ≤ options.maxLength)
    (hscan : scan text options.preserveLiteralCase = .ok ts)
    (h : Grammar.Blames ⟨category, options.maxDepth, text.utf8ByteSize⟩ ts e) :
    Placed options text (.grammatical e) := by
  cases h with
  | @token t fault ht hfault =>
    obtain ⟨hplace, hlt⟩ := isPlace_of_scan hscan ht
    refine placed_grammatical rfl hlength (.inr ⟨ts, t, hscan, ht, rfl⟩) ?_ hplace
    constructor
    · intro heq
      exact absurd heq hlt.ne
    · intro hend
      obtain ⟨wanted, hw⟩ := SyntaxError.saysEnd_iff.1 hend
      exact absurd hw (hfault wanted)
  | finish wanted =>
    refine placed_grammatical rfl hlength (.inl rfl) ?_ (isPlace_end text)
    exact ⟨fun _ => SyntaxError.saysEnd_iff.2 ⟨wanted, rfl⟩, fun _ => rfl⟩

theorem placed_of_admitted {e : CompileError} (h : admitted options text category = .error e) :
    Placed options text e := by
  rcases cases_of_admitted h with rfl | ⟨refusal, rfl⟩ | ⟨f, rfl, hscan⟩ | ⟨rfl, hlong⟩
  · constructor <;> simp [position]
  · constructor <;> simp [position]
  · obtain ⟨before, rest, hstuck, hp⟩ := scan_eq_error_iff.1 hscan
    have hplace : IsPlace text f.position := ⟨before, f.character :: rest, hstuck.text, hp⟩
    constructor
    case lexical =>
      intro g hg
      cases hg
      exact ⟨before, rest, hstuck, congrArg some hp⟩
    case isPlace =>
      intro p hf
      obtain rfl : f.position = p := Option.some.inj hf
      exact ⟨hplace, hplace.le⟩
    all_goals simp
  · constructor
    case tooLong =>
      intro f hf
      cases hf
      exact ⟨fun _ => hlong, fun _ => rfl⟩
    case finish =>
      intro f hf
      cases hf
      simp [SyntaxError.saysEnd_iff]
    all_goals simp [position]

end CompileError

/-- Every error of compiling is tied to the place that it tells of. A syntax error is tied to a token,
or to the end of the text if it says that the expression ended too early, and to no place if the text
is too long. A lexical error is tied to the character that begins no lexeme, other errors to no place.
All places are at characters of the text or at its end. -/
theorem placed_of_compile (options : CompileOptions) (text : String) (category : Category)
    (e : CompileError) (h : compile options text category = .error e) :
    e.Placed options text := by
  rw [compile_eq_admitted] at h
  rcases bind_eq_error.1 h with hadmitted | ⟨ts, hadmitted, h⟩
  · exact CompileError.placed_of_admitted hadmitted
  · obtain ⟨f, hread, rfl⟩ := mapError_eq_error.1 h
    exact CompileError.placed_of_blames (length_le_of_admitted hadmitted)
      (scan_of_admitted hadmitted) (Grammar.blames_of_read hread)

/-- A group that is not closed, behind a string with a character of two bytes. -/
theorem placed_of_compile_unclosed :
    ∃ e, compile {} "LOCATION = 'é' AND (TIME = night" .composite = .error e ∧
      e.position = some 33 ∧ e.Placed {} "LOCATION = 'é' AND (TIME = night" := by
  have hp : (match compile {} "LOCATION = 'é' AND (TIME = night" .composite with
      | .error e => e.position
      | .ok _ => none) = some 33 := by
    decide +kernel
  cases h : compile {} "LOCATION = 'é' AND (TIME = night" .composite with
  | ok rule =>
    rw [h] at hp
    cases hp
  | error e =>
    rw [h] at hp
    exact ⟨e, rfl, hp, placed_of_compile _ _ _ e h⟩

end Screening
