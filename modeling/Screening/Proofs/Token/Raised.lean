import Screening.Proofs.Grammar.Admitted
import Screening.Proofs.Grammar.Reader
import Screening.Proofs.Token.Quoting
import Screening.Proofs.Token.Scanning

/-!
# Strings in upper case

If strings do not keep their case a text is scanned as the same tokens at the same places, but for
the texts of the strings: what stands between their quotes is in upper case. Nothing that is decided
before the tokens are read depends on these texts.
-/

namespace Screening

open Text

namespace Token

/-! ## Raised tokens -/

/-- The token as it is if strings do not keep their case. -/
def raised (t : Token) : Token :=
  if t.kind = .string then { t with text := upper t.text } else t

theorem raised_of_ne_string {t : Token} (h : t.kind ≠ .string) : t.raised = t := if_neg h

theorem text_raised {t : Token} (h : t.kind = .string) : t.raised.text = upper t.text := by
  rw [raised, if_pos h]

@[simp] theorem kind_raised (t : Token) : t.raised.kind = t.kind := by
  unfold raised
  split <;> rfl

@[simp] theorem position_raised (t : Token) : t.raised.position = t.position := by
  unfold raised
  split <;> rfl

theorem token_raised (x : Lexeme) (place : Nat) :
    x.token false place = (x.token true place).raised := by
  obtain ⟨kind, raw, rest⟩ := x
  cases kind <;> rfl

/-! ## Scanning -/

/-- Lexemes are found in the written text, so that their case matters to the tokens only. -/
theorem scanFrom_raised (steps : Nat) (place : Nat) (cs : List Char) :
    scanFrom false steps place cs = (scanFrom true steps place cs).map (List.map raised) := by
  induction steps generalizing place cs with
  | zero => rfl
  | succ steps ih =>
    simp only [scanFrom, ih, token_raised]
    split
    · rfl
    · split
      · rfl
      · next x _ =>
        cases scanFrom true steps
          (place + byteLength (cs.takeWhile isSpace) + byteLength x.raw) x.rest <;> rfl

theorem scan_raised (text : String) : scan text false = (scan text).map (List.map raised) :=
  scanFrom_raised _ _ _

/-! ## Quotes -/

/-- The text of a token is in quotes of one sort. -/
def Quoted (t : Token) : Prop := ∃ body, Grammar.unquote? t.text = some body

/-- Quotes have no case. -/
theorem upperChar_of_isQuote {c : Char} (h : Lexeme.isQuote c = true) : upperChar c = [c] := by
  rcases Lexeme.isQuote_iff.1 h with rfl | rfl <;> decide

/-- What stands between the quotes is put in upper case, and the quotes stay. -/
theorem unquote?_upper {text body : String} (h : Grammar.unquote? text = some body) :
    Grammar.unquote? (upper text) = some (upper body) := by
  obtain ⟨quote, hq, htext⟩ := Grammar.unquote?_eq_some.1 h
  apply Grammar.unquote?_eq_some.2
  refine ⟨quote, hq, ?_⟩
  simp [upper, htext, upperChar_of_isQuote hq]

/-- Strings that were scanned are in quotes. -/
theorem quoted_of_scan {text : String} {ts : List Token} (h : scan text = .ok ts) {t : Token}
    (ht : t ∈ ts) (hk : t.kind = .string) : t.Quoted := by
  obtain ⟨_, hscans⟩ := scan_eq_ok_iff.1 h
  obtain ⟨x, hshape, place, rfl⟩ := hscans.exists_lexeme t ht
  have hkind : x.kind = .string := hk
  obtain ⟨quote, body, hraw, hq, -⟩ := (hshape.isString hkind).raw
  refine ⟨String.ofList body, Grammar.unquote?_quoted hq ?_⟩
  simp [Lexeme.token, Lexeme.text, hkind, hraw]

end Token

/-! ## Admission -/

/-- Whether tokens are admitted, and why not, does not depend on the case of strings. -/
theorem Token.keeps_raised : Admission.Keeps raised where
  kind := kind_raised
  text _ hk := congrArg text (raised_of_ne_string hk)

end Screening
