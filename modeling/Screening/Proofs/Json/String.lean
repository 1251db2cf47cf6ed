import Screening.Json.Scalar
import Screening.Json.Text

/-!
# Strings in JSON text

A string that is put in quotes and escaped is read back as the string. A character becomes one
piece, be it written as it is, behind a backslash or by its number.
-/

namespace Screening.Json

theorem hexDigit?_digitChar : ∀ n < 16, hexDigit? n.digitChar = some n := by decide

/-- Four digits of which the first two are zero stand for a character below `0x100`. -/
theorem hex4?_digitChar {n : Nat} (h : n < 0x100) :
    hex4? '0' '0' (n / 16).digitChar (n % 16).digitChar = some n := by
  have hzero : hexDigit? '0' = some 0 := by decide
  have hhigh := hexDigit?_digitChar (n / 16) (by omega)
  have hlow := hexDigit?_digitChar (n % 16) (by omega)
  simp only [hex4?, hzero, hhigh, hlow, Option.bind_eq_bind, Option.bind_some, Option.pure_def]
  congr 1
  omega

/-- `p` is the piece that the escaped character is read as, and it makes up the character. -/
structure Stands (p : Piece) (c : Char) : Prop where
  pieces : ∀ cs, pieces? (escape c ++ cs) =
    (pieces? cs).map fun (ps, after) => (p :: ps, after)
  assemble : ∀ ps, assemble? (p :: ps) = (assemble? ps).map (c :: ·)

/-- A character behind a backslash, or named by a letter there, stands for itself. -/
theorem stands_backslash {c e : Char} (he : escape c = ['\\', e]) (hu : e ≠ 'u')
    (hc : unescape? e = some c) : Stands (.char c) c where
  pieces cs := by
    have hread : pieces? ('\\' :: e :: cs) = do
        let c ← unescape? e
        let (ps, after) ← pieces? cs
        return (.char c :: ps, after) := by
      rw [pieces?]
      rintro a b c d rest hux
      exact absurd hux hu
    rw [he]
    simp only [List.cons_append, List.nil_append, hread, hc, Option.bind_eq_bind, Option.bind_some,
      Option.map_eq_bind]
    rfl
  assemble ps := by rw [assemble?]

/-- A control character is given by its number. -/
theorem stands_unit {c : Char} (h : c.toNat < 0x20)
    (he : escape c = ['\\', 'u', '0', '0', (c.toNat / 16).digitChar, (c.toNat % 16).digitChar]) :
    Stands (.unit c.toNat) c where
  pieces cs := by
    have hc := hex4?_digitChar (n := c.toNat) (by omega)
    rw [he]
    simp only [List.cons_append, List.nil_append, pieces?, hc, Option.bind_eq_bind,
      Option.bind_some, Option.map_eq_bind]
    rfl
  assemble ps := by
    have hhigh : ¬ (0xD800 ≤ c.toNat ∧ c.toNat < 0xDC00) := by omega
    have hlow : ¬ (0xDC00 ≤ c.toNat ∧ c.toNat < 0xE000) := by omega
    rw [assemble?.eq_def]
    simp only [hhigh, hlow, if_false, Char.ofNat_toNat]

/-- Every other character is written as it is. -/
theorem stands_plain {c : Char} (h : ¬ c.toNat < 0x20) (hquote : c ≠ '"') (hback : c ≠ '\\')
    (he : escape c = [c]) : Stands (.char c) c where
  pieces cs := by
    have hread : pieces? (c :: cs) = if c.toNat < 0x20 then none
        else do
          let (ps, after) ← pieces? cs
          return (.char c :: ps, after) := by
      rw [pieces?]
      · exact hquote
      · exact fun _ _ _ _ _ hx => absurd hx hback
      · exact fun _ _ hx => absurd hx hback
    rw [he, List.singleton_append, hread, if_neg h, Option.map_eq_bind]
    rfl
  assemble ps := by rw [assemble?]

/-- The characters that have an escape of their own. -/
def shortEscapes : List Char := ['"', '\\', '\x08', '\t', '\n', '\x0c', '\r']

theorem escape_eq {c : Char} (h : c ∉ shortEscapes) :
    escape c = if c.toNat < 0x20 then
        ['\\', 'u', '0', '0', (c.toNat / 16).digitChar, (c.toNat % 16).digitChar]
      else [c] := by
  simp only [shortEscapes, List.mem_cons, List.not_mem_nil, or_false, not_or] at h
  obtain ⟨h1, h2, h3, h4, h5, h6, h7⟩ := h
  rw [escape]
  · exact h1
  · exact h2
  · exact h3
  · exact h4
  · exact h5
  · exact h6
  · exact h7

theorem exists_stands (c : Char) : ∃ p, Stands p c := by
  by_cases hshort : c ∈ shortEscapes
  · simp only [shortEscapes, List.mem_cons, List.not_mem_nil, or_false] at hshort
    rcases hshort with rfl | rfl | rfl | rfl | rfl | rfl | rfl <;>
      exact ⟨_, stands_backslash rfl (by decide) rfl⟩
  · have he := escape_eq hshort
    by_cases hcontrol : c.toNat < 0x20
    · rw [if_pos hcontrol] at he
      exact ⟨_, stands_unit hcontrol he⟩
    · rw [if_neg hcontrol] at he
      have hquote : c ≠ '"' := fun h => hshort (by simp [h, shortEscapes])
      have hback : c ≠ '\\' := fun h => hshort (by simp [h, shortEscapes])
      exact ⟨_, stands_plain hcontrol hquote hback he⟩

/-- An escaped text up to its closing quote has pieces that make it up. -/
theorem exists_pieces (cs after : List Char) :
    ∃ ps, pieces? (cs.flatMap escape ++ '"' :: after) = some (ps, after) ∧
      assemble? ps = some cs := by
  induction cs with
  | nil => exact ⟨[], by simp [pieces?], rfl⟩
  | cons c rest ih =>
    obtain ⟨ps, hread, hmade⟩ := ih
    obtain ⟨p, hp⟩ := exists_stands c
    refine ⟨p :: ps, ?_, ?_⟩
    · rw [List.flatMap_cons, List.append_assoc, hp.pieces, hread, Option.map_some]
    · rw [hp.assemble, hmade, Option.map_some]

/-- What is written behind an opening quote is read as the string. -/
theorem string?_escape (s : String) (after : List Char) :
    string? (s.toList.flatMap escape ++ '"' :: after) = some (some s, after) := by
  obtain ⟨ps, hread, hmade⟩ := exists_pieces s.toList after
  simp only [string?, hread, hmade, Option.map_some, String.ofList_toList]

end Screening.Json
