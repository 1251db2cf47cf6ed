import Screening.Proofs.Token.Longest
import Screening.Proofs.Token.Scanning

/-!
# Seams

What a scan has left may be replaced by another text that begins alike: the tokens before it stay. So
a text that was scanned on its own is scanned as the same tokens where it stands within another,
provided that a delimiter follows. Only the places of the tokens move.
-/

namespace Screening.Token

open Text

/-! ## Moved tokens -/

/-- The token at a place that is so many bytes further on. -/
def moved (n : Nat) (t : Token) : Token := { t with position := n + t.position }

@[simp] theorem kind_moved (n : Nat) (t : Token) : (t.moved n).kind = t.kind := rfl

@[simp] theorem text_moved (n : Nat) (t : Token) : (t.moved n).text = t.text := rfl

/-! ## Replaced texts -/

variable {keepCase : Bool} {p q : Nat} {cs rest : List Char} {ts : List Token}

/-- What is left of a text may be replaced by another text that begins alike, and the text may stand
at a later place. -/
theorem Scans.replace {rest' : List Char} (h : Scans keepCase p cs ts q rest)
    (hrest : Lexeme.Replaces rest rest') (n : Nat) :
    ∃ front, cs = front ++ rest ∧
      Scans keepCase (n + p) (front ++ rest') (ts.map (Token.moved n)) (n + q) rest' := by
  induction h with
  | done => exact ⟨[], rfl, .done⟩
  | @space p c cs ts q rest hc _ ih =>
    obtain ⟨front, rfl, hs⟩ := ih hrest
    rw [← Nat.add_assoc] at hs
    exact ⟨c :: front, rfl, .space hc hs⟩
  | @lexeme p cs x ts q rest hx _ ih =>
    obtain ⟨front, hcs, hs⟩ := ih hrest
    have hreplaces : Lexeme.Replaces x.rest (front ++ rest') := by
      rw [hcs]
      exact hrest.append front
    rw [← Nat.add_assoc] at hs
    have hscan := Scans.lexeme (Lexeme.front?_replace hx hreplaces) hs
    refine ⟨x.raw ++ front, ?_, ?_⟩
    · rw [(Lexeme.front?_eq_some hx).1, hcs, List.append_assoc]
    · rw [List.append_assoc]
      exact hscan

/-- The tokens of a text are those of the same text at a later place in front of a delimiter. -/
theorem Scans.moved {behind : List Char} (h : Scans keepCase p cs ts q rest)
    (hb : Delimited behind) (n : Nat) :
    Scans keepCase (n + p) (cs ++ behind) (ts.map (Token.moved n)) (n + q) (rest ++ behind) := by
  obtain ⟨front, rfl, hs⟩ := h.replace (Lexeme.replaces_append rest hb) n
  rwa [List.append_assoc]

end Screening.Token
