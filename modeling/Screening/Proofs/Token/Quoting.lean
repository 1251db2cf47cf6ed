import Screening.Proofs.Grammar.Derivation
import Screening.Proofs.Token.Lexeme
import Screening.Proofs.Rule.Literal

/-!
# Strings of lexemes

The strings that lexemes stand for can be put in quotes again. A quoted string does not contain
the quotes around it, and a bare word contains no quotes at all.
-/

namespace Screening

namespace Text

/-! ## Lower case of ASCII text -/

/-- The lower case of ASCII characters is taken one by one. -/
theorem mem_lowerChars {cs : List Char} (h : ∀ c ∈ cs, c.toNat < 128) (before : List Char) :
    ∀ d ∈ lowerChars before cs, ∃ c ∈ cs, d = c.toLower := by
  induction cs generalizing before with
  | nil => simp [lowerChars]
  | cons c rest ih =>
    obtain ⟨hc, hrest⟩ := List.forall_mem_cons.1 h
    -- only the capital sigma looks at its neighbours
    have hsigma : c ≠ 'Σ' := by
      rintro rfl
      exact absurd hc (by decide)
    intro d hd
    simp only [lowerChars, hsigma, if_false, lowerChar, hc, if_true, List.cons_append,
      List.nil_append, List.mem_cons] at hd
    rcases hd with rfl | hd
    · exact ⟨c, List.mem_cons_self, rfl⟩
    · obtain ⟨e, he, rfl⟩ := ih hrest _ d hd
      exact ⟨e, List.mem_cons_of_mem _ he, rfl⟩

/-- A character of a word in upper and then in lower case is no quote. -/
structure PartFacts (c : Char) : Prop where
  ascii : c.toUpper.toNat < 128
  ne_single : c.toUpper.toLower ≠ '\x27'
  ne_double : c.toUpper.toLower ≠ '"'

theorem partFacts {c : Char} (h : isWordPart c = true) : PartFacts c := by
  have key := forall_ascii (p := isWordPart) (q := fun c => decide (c.toUpper.toNat < 128) &&
    c.toUpper.toLower != '\x27' && c.toUpper.toLower != '"') (by decide)
    (toNat_lt_of_isWordPart h) h
  simp only [Bool.and_eq_true, bne_iff_ne, decide_eq_true_eq] at key
  obtain ⟨⟨ha, hs⟩, hd⟩ := key
  exact ⟨ha, hs, hd⟩

/-- The lower case of a word that was put in upper case has no quotes. -/
theorem not_quote_of_mem_lower {raw : List Char} (h : ∀ c ∈ raw, isWordPart c = true) :
    ∀ d ∈ (lower (upperAscii (String.ofList raw))).toList, d ≠ '\x27' ∧ d ≠ '"' := by
  intro d hd
  rw [lower, String.toList_ofList, toList_upperAscii, String.toList_ofList] at hd
  have hascii : ∀ c ∈ raw.map Char.toUpper, c.toNat < 128 :=
    List.forall_mem_map.2 fun c hc => (partFacts (h c hc)).ascii
  obtain ⟨u, hu, rfl⟩ := mem_lowerChars hascii [] d hd
  obtain ⟨c, hc, rfl⟩ := List.mem_map.1 hu
  exact ⟨(partFacts (h c hc)).ne_single, (partFacts (h c hc)).ne_double⟩

end Text

/-- There are no quotes in the text. -/
def Quoteless (text : String) : Prop := text.toList.any Lexeme.isQuote = false

instance (text : String) : Decidable (Quoteless text) :=
  inferInstanceAs (Decidable (text.toList.any Lexeme.isQuote = false))

namespace Lexeme

/-! ## Words -/

theorem isWordPart_of_isWord {raw : List Char} (h : isWord raw = true) :
    ∀ c ∈ raw, Text.isWordPart c = true := by
  cases raw with
  | nil => cases h
  | cons c cs =>
    simp only [isWord, Bool.and_eq_true, List.all_eq_true] at h
    exact List.forall_mem_cons.2 ⟨isWordPart_of_isWordStart h.1, h.2⟩

theorem classify_ne_string (word : String) : classify word ≠ .string := by
  rw [classify]
  split
  · decide
  · split
    · decide
    · split
      · decide
      · split <;> decide

/-- Only strings are of the kind of strings. -/
theorem Shape.isString {x : Lexeme} (h : Shape x) (hk : x.kind = .string) : IsString x := by
  cases h with
  | number h => exact absurd (h.kind.symm.trans hk) (by decide)
  | string h => exact h
  | word h => exact absurd (h.kind.symm.trans hk) (classify_ne_string _)
  | sign h =>
    rcases h.kind with hs | hs | hs | hs <;> exact absurd (hs.symm.trans hk) (by decide)

/-- Only words are of the kind of bare words. -/
theorem Shape.isWord {x : Lexeme} (h : Shape x) (hk : x.kind = .identifier) : IsWord x := by
  cases h with
  | number h => exact absurd (h.kind.symm.trans hk) (by decide)
  | string h => exact absurd (h.kind.symm.trans hk) (by decide)
  | word h => exact h
  | sign h =>
    rcases h.kind with hs | hs | hs | hs <;> exact absurd (hs.symm.trans hk) (by decide)

/-! ## Quotes -/

/-- Without quotes there is no string. -/
theorem kind_ne_string {cs : List Char} {x : Lexeme} (h : front? cs = some x)
    (hcs : ∀ c ∈ cs, isQuote c = false) : x.kind ≠ .string := by
  intro hk
  obtain ⟨hsplit, hshape⟩ := front?_eq_some h
  obtain ⟨quote, body, hraw, hquote, -⟩ := (hshape.isString hk).raw
  have hmem : quote ∈ cs := by
    rw [hsplit, hraw]
    exact List.mem_cons_self
  rw [hcs quote hmem] at hquote
  cases hquote

/-- What a lexeme denotes can be put in quotes, if strings keep their case. -/
theorem Shape.quotable {x : Lexeme} (h : Shape x) {position : Nat} {v : Literal}
    (hv : Grammar.Denotes (x.token true position) v) : v.Quotable := by
  cases hv with
  | number _ hv =>
    cases v with
    | string s => exact absurd hv Literal.ofNumberText?_ne_string
    | _ => trivial
  | @string quote body hk hq ht =>
    have hk : x.kind = .string := hk
    obtain ⟨mark, inside, hraw, -, hfree⟩ := (h.isString hk).raw
    have htext : (x.token true position).text = String.ofList x.raw := by
      simp only [Lexeme.token, Lexeme.text, hk, if_true]
    -- the quotes that are taken off are those the lexeme was found by
    rw [htext, String.toList_ofList, hraw] at ht
    obtain ⟨rfl, hrest⟩ := List.cons.inj ht
    obtain ⟨rfl, -⟩ := List.append_inj' hrest rfl
    intro hx
    obtain ⟨hsingle, hdouble⟩ := hx
    rw [String.toList_ofList] at hsingle hdouble
    rcases isQuote_iff.1 hq with rfl | rfl
    · exact hfree hsingle
    · exact hfree hdouble
  | bool => trivial
  | word hk =>
    have hk : x.kind = .identifier := hk
    have hnone := Text.not_quote_of_mem_lower (isWordPart_of_isWord (h.isWord hk).raw)
    have htext : (x.token true position).text = Text.upperAscii (String.ofList x.raw) := by
      simp only [Lexeme.token, Lexeme.text, hk]
    rw [htext]
    intro hx
    obtain ⟨hsingle, -⟩ := hx
    exact (hnone _ hsingle).1 rfl

end Lexeme

end Screening
