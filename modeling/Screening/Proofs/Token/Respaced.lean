import Screening.Proofs.Token.CaseFolding
import Screening.Proofs.Token.Longest
import Screening.Proofs.Token.Raised

/-!
# Other spaces

The text of a token is a lexeme that stands for the token again. So a text that is scanned may be
written anew from the texts of its tokens, with any blanks between them, and it is scanned as the same
tokens at other places.
-/

namespace Screening

open Text

namespace Token

/-! ## Tokens without their places -/

/-- The token without its place. -/
def unplaced (t : Token) : Token := { t with position := 0 }

@[simp] theorem kind_unplaced (t : Token) : t.unplaced.kind = t.kind := rfl

@[simp] theorem text_unplaced (t : Token) : t.unplaced.text = t.text := rfl

theorem unplaced_eq_iff {t u : Token} :
    t.unplaced = u.unplaced ↔ t.kind = u.kind ∧ t.text = u.text := by
  simp [unplaced]

/-- Tokens that are equal but for their places have equal kinds and texts. -/
theorem map_eq_of_unplaced {ts us : List Token} (h : ts.map unplaced = us.map unplaced) :
    ts.map kind = us.map kind ∧ ts.map text = us.map text := by
  constructor
  · have hkind := congrArg (List.map kind) h
    rw [List.map_map, List.map_map] at hkind
    exact hkind
  · have htext := congrArg (List.map text) h
    rw [List.map_map, List.map_map] at htext
    exact htext

/-- Whether tokens are admitted, and why not, does not depend on their places. -/
theorem keeps_unplaced : Admission.Keeps unplaced := ⟨fun _ => rfl, fun _ _ => rfl⟩

/-! ## Texts of tokens -/

/-- The text of the token is a lexeme of its own kind that has the text again. -/
structure Respells (t : Token) : Prop where
  isLexeme : Lexeme.IsLexeme t.kind t.text.toList
  text : t.kind ≠ .string → upperAscii t.text = t.text

/-- In upper case a lexeme is a lexeme of the same kind. -/
theorem isLexeme_upper {kind : TokenKind} {raw : List Char} (h : Lexeme.IsLexeme kind raw) :
    Lexeme.IsLexeme kind (raw.map Char.toUpper) := by
  have hmap := Lexeme.front?_map (raw ++ [])
  rw [Lexeme.front?_stop h (by simp), List.append_nil] at hmap
  exact Lexeme.isLexeme_of_front? hmap

theorem respells_token {x : Lexeme} (h : Lexeme.IsLexeme x.kind x.raw) (place : Nat) :
    (x.token true place).Respells := by
  obtain ⟨kind, raw, rest⟩ := x
  by_cases hk : kind = .string
  · subst hk
    refine ⟨?_, fun hne => absurd rfl hne⟩
    have htext : (Lexeme.token true place ⟨.string, raw, rest⟩).text = String.ofList raw := rfl
    rw [htext, String.toList_ofList]
    exact h
  · have htext : (Lexeme.token true place ⟨kind, raw, rest⟩).text = upperAscii (String.ofList raw) :=
      Lexeme.text_of_ne_string hk true raw rest
    refine ⟨?_, fun _ => ?_⟩
    · rw [htext, toList_upperAscii, String.toList_ofList]
      exact isLexeme_upper h
    · rw [htext]
      exact upperAscii_upperAscii _

theorem Scans.respells {p q : Nat} {cs rest : List Char} {ts : List Token}
    (h : Scans true p cs ts q rest) : ∀ t ∈ ts, t.Respells := by
  induction h with
  | done => simp
  | space _ _ ih => exact ih
  | lexeme hx _ ih =>
    exact List.forall_mem_cons.2 ⟨respells_token (Lexeme.isLexeme_of_front? hx) _, ih⟩

/-- A blank is white space, and no lexeme goes on with it. -/
theorem spaceFacts {c : Char} (h : isSpace c = true) :
    isBlank c = true ∧ Lexeme.isApart c = true := by
  simp only [isSpace, Bool.or_eq_true, beq_iff_eq] at h
  rcases h with ((rfl | rfl) | rfl) | rfl <;> exact ⟨rfl, rfl⟩

/-- In front of a blank the text of a token is the front lexeme, and it becomes the token again. -/
theorem Respells.front? {t : Token} (h : t.Respells) {rest : List Char}
    (hrest : ∀ c ∈ rest.head?, isSpace c = true) :
    Lexeme.front? (t.text.toList ++ rest) = some ⟨t.kind, t.text.toList, rest⟩ :=
  Lexeme.front?_stop h.isLexeme fun c hc =>
    Lexeme.goesOn_of_isApart (spaceFacts (hrest c hc)).2 _ _

theorem Respells.token {t : Token} (h : t.Respells) (rest : List Char) (place : Nat) :
    (Lexeme.token true place ⟨t.kind, t.text.toList, rest⟩).unplaced = t.unplaced := by
  refine unplaced_eq_iff.2 ⟨rfl, ?_⟩
  by_cases hk : t.kind = .string
  · simp only [Lexeme.token, Lexeme.text, hk, if_true, String.ofList_toList]
  · rw [Lexeme.token, Lexeme.text_of_ne_string hk, String.ofList_toList, h.text hk]

/-! ## Texts with other blanks -/

/-- The characters are the words in their order, with blanks between any two of them and perhaps at
both ends. -/
inductive Spread : List String → List Char → Prop
  | nil : Spread [] []
  | blank {words : List String} {c : Char} {cs : List Char} : isSpace c = true → Spread words cs →
      Spread words (c :: cs)
  | word {word : String} {words : List String} {cs : List Char} :
      (words ≠ [] → ∃ c ∈ cs.head?, isSpace c = true) → Spread words cs →
      Spread (word :: words) (word.toList ++ cs)

/-- A word may stand in front of every blank. -/
theorem Spread.front (word : String) {words : List String} {c : Char} {cs : List Char}
    (hc : isSpace c = true) (h : Spread words cs) : Spread (word :: words) (word.toList ++ c :: cs) :=
  .word (fun _ => ⟨c, rfl, hc⟩) (.blank hc h)

/-- Without words there are blanks only. -/
theorem Spread.isSpace_of_nil {cs : List Char} (h : Spread [] cs) : ∀ c ∈ cs, isSpace c = true := by
  generalize hwords : ([] : List String) = words at h
  induction h with
  | nil => simp
  | blank hc _ ih => exact List.forall_mem_cons.2 ⟨hc, ih hwords⟩
  | word => cases hwords

/-- Behind a word there is a blank or the end. -/
theorem Spread.isSpace_head? {words : List String} {cs : List Char} (h : Spread words cs)
    (hwords : words ≠ [] → ∃ c ∈ cs.head?, isSpace c = true) : ∀ c ∈ cs.head?, isSpace c = true := by
  intro c hc
  by_cases hnil : words = []
  · subst hnil
    exact h.isSpace_of_nil c (List.mem_of_mem_head? hc)
  · obtain ⟨d, hd, hspace⟩ := hwords hnil
    obtain rfl : d = c := Option.some.inj (hd.symm.trans hc)
    exact hspace

/-- The texts of tokens are scanned as the same tokens wherever there are blanks between them. -/
theorem Spread.scans {words : List String} {cs : List Char} (h : Spread words cs) :
    ∀ {ts : List Token} (p : Nat), ts.map text = words → (∀ t ∈ ts, t.Respells) →
      ∃ us q, Scans true p cs us q [] ∧ us.map unplaced = ts.map unplaced := by
  induction h with
  | nil =>
    intro ts p hwords _
    obtain rfl := List.map_eq_nil_iff.1 hwords
    exact ⟨[], p, .done, rfl⟩
  | @blank words c cs hc _ ih =>
    intro ts p hwords hts
    obtain ⟨us, q, hs, heq⟩ := ih (p + c.utf8Size) hwords hts
    exact ⟨us, q, .space hc hs, heq⟩
  | @word word words cs hblank hcs ih =>
    intro ts p hwords hts
    obtain ⟨t, ts, rfl, rfl, rfl⟩ := List.map_eq_cons_iff.1 hwords
    obtain ⟨ht, hts⟩ := List.forall_mem_cons.1 hts
    obtain ⟨us, q, hs, heq⟩ := ih (p + byteLength t.text.toList) rfl hts
    have hscan := Scans.lexeme (ht.front? (hcs.isSpace_head? hblank)) hs
    refine ⟨_, q, hscan, ?_⟩
    rw [List.map_cons, List.map_cons, heq, ht.token]

/-! ## Texts without tokens -/

/-- No lexeme begins with white space. -/
theorem isBlank_of_isStart {c : Char} (h : Lexeme.isStart c = true) : isBlank c = false := by
  have hascii : c.toNat < 128 := by
    simp only [Lexeme.isStart, Bool.or_eq_true, beq_iff_eq] at h
    rcases h with (((hd | rfl) | hq) | hw) | hs
    · exact toNat_lt_of_isDigit hd
    · decide
    · rcases Lexeme.isQuote_iff.1 hq with rfl | rfl <;> decide
    · exact toNat_lt_of_isWordPart (Lexeme.isWordPart_of_isWordStart hw)
    · rcases Lexeme.isSign_iff.1 hs with rfl | rfl | rfl | rfl | rfl | rfl | rfl <;> decide
  have key := forall_ascii (p := Lexeme.isStart) (q := fun c => !isBlank c) (by decide) hascii h
  simpa using key

theorem Scans.all_isBlank {keepCase : Bool} {p q : Nat} {cs rest : List Char} {ts : List Token}
    (h : Scans keepCase p cs ts q rest) (hrest : rest = []) :
    cs.all isBlank = ts.isEmpty := by
  induction h with
  | done =>
    subst hrest
    rfl
  | space hc _ ih => simpa [(spaceFacts hc).1] using ih hrest
  | lexeme hx _ ih =>
    obtain ⟨c, cs, hraw, hc⟩ := (Lexeme.isLexeme_of_front? hx).exists_isStart
    rw [(Lexeme.front?_eq_some hx).1, hraw]
    simp [isBlank_of_isStart hc]

/-- A text that is scanned says something exactly if it has tokens. -/
theorem allBlank_of_scan {text : String} {ts : List Token} {keepCase : Bool}
    (h : scan text keepCase = .ok ts) : allBlank text = ts.isEmpty := by
  obtain ⟨_, hscans⟩ := scan_eq_ok_iff.1 h
  exact hscans.all_isBlank rfl

/-! ## Scanning -/

theorem unplaced_raised (t : Token) : t.raised.unplaced = t.unplaced.raised := by
  rw [raised, raised, kind_unplaced]
  split <;> rfl

/-- A text that is scanned and the texts of its tokens with other blanks between them are scanned as
the same tokens, whether strings keep their case or not. -/
theorem scan_of_spread {s u : String} {ts : List Token} (hs : scan s = .ok ts)
    (hu : Spread (ts.map text) u.toList) (keepCase : Bool) :
    ∃ vs us, scan s keepCase = .ok vs ∧ scan u keepCase = .ok us ∧
      us.map unplaced = vs.map unplaced := by
  obtain ⟨_, hscans⟩ := scan_eq_ok_iff.1 hs
  obtain ⟨us, q, hscans', heq⟩ := hu.scans 0 rfl hscans.respells
  have hu' : scan u = .ok us := scan_eq_ok_iff.2 ⟨q, hscans'⟩
  cases keepCase with
  | true => exact ⟨ts, us, hs, hu', heq⟩
  | false =>
    refine ⟨ts.map raised, us.map raised, ?_, ?_, ?_⟩
    · rw [scan_raised, hs]
      rfl
    · rw [scan_raised, hu']
      rfl
    · have hcomm : unplaced ∘ raised = raised ∘ unplaced := funext unplaced_raised
      rw [List.map_map, List.map_map, hcomm, ← List.map_map, ← List.map_map, heq]

end Token

end Screening
