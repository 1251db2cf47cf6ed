import Screening.Json.Scalar
import Screening.Json.Text
import Screening.Proofs.Number.Written

/-!
# Numbers in JSON text

The text of an integer or of a binary64 number is read back as the number, whatever may follow a
value. An integer of 64 bits, signed or not, stays an integer and a binary64 number stays one.
-/

namespace Screening.Json

open Number

/-! ## What follows a value -/

/-- A character that ends every value. -/
def isEnd (c : Char) : Bool := c == ',' || c == ']' || c == '}'

/-- The text is over or goes on with a character that ends every value. -/
def Ends (cs : List Char) : Prop := ∀ c ∈ cs.head?, isEnd c = true

theorem Ends.nil : Ends [] := by simp [Ends]

theorem ends_cons {c cs} : Ends (c :: cs) ↔ isEnd c = true := by simp [Ends]

/-- What is needed of a character that ends a value: no number goes on with it. -/
structure EndFacts (c : Char) : Prop where
  isDigit : c.isDigit = false
  ne_point : c ≠ '.'
  ne_lower : c ≠ 'e'
  ne_upper : c ≠ 'E'

theorem endFacts {c : Char} (h : isEnd c = true) : EndFacts c := by
  simp only [isEnd, Bool.or_eq_true, beq_iff_eq] at h
  rcases h with (rfl | rfl) | rfl <;> exact ⟨by decide, by decide, by decide, by decide⟩

/-! ## Digits -/

/-- The text does not go on with a digit. -/
def NoDigit (cs : List Char) : Prop := ∀ c ∈ cs.head?, c.isDigit = false

theorem noDigit_cons {c cs} : NoDigit (c :: cs) ↔ c.isDigit = false := by simp [NoDigit]

theorem Ends.noDigit {cs} (h : Ends cs) : NoDigit cs := fun c hc => (endFacts (h c hc)).isDigit

/-! ## Parts -/

theorem exponentText_noDigit (e : Option Int) {rest : List Char} (h : Ends rest) :
    NoDigit (exponentText e ++ rest) := by
  cases e with
  | none => exact h.noDigit
  | some e => exact noDigit_cons.2 (by decide)

theorem exponentText_ne_point (e : Option Int) {rest : List Char} (h : Ends rest) :
    ∀ c ∈ (exponentText e ++ rest).head?, c ≠ '.' := by
  cases e with
  | none => exact fun c hc => (endFacts (h c hc)).ne_point
  | some e => simp [exponentText]

theorem fractionText_noDigit (fraction : List Char) {rest : List Char} (h : NoDigit rest) :
    NoDigit (fractionText fraction ++ rest) := by
  cases fraction with
  | nil => exact h
  | cons => exact noDigit_cons.2 (by decide)

theorem fraction?_text {fraction rest : List Char} (hf : ∀ c ∈ fraction, c.isDigit = true)
    (hrest : NoDigit rest) (hpoint : ∀ c ∈ rest.head?, c ≠ '.') :
    fraction? (fractionText fraction ++ rest) = some (fraction, rest) := by
  cases fraction with
  | nil =>
    rw [fractionText, List.nil_append, fraction?.eq_def]
    split
    · exact absurd rfl (hpoint '.' rfl)
    · rfl
  | cons d digits =>
    obtain ⟨htake, hdrop⟩ := Text.span_stop hf hrest
    simp only [fractionText, List.cons_append] at htake hdrop ⊢
    simp [fraction?, htake, hdrop]

theorem exponent?_text (e : Option Int) {rest : List Char} (h : Ends rest) :
    exponent? (exponentText e ++ rest) = some (e, rest) := by
  cases e with
  | none =>
    cases rest with
    | nil => rfl
    | cons c rest =>
      have hc := endFacts (ends_cons.1 h)
      simp [exponentText, exponent?, hc.ne_lower, hc.ne_upper]
  | some e =>
    have hd := isDigits_toDigits e.natAbs
    obtain ⟨htake, hdrop⟩ := Text.span_stop hd.isDigit h.noDigit
    have hvalue := signed_natAbs e
    by_cases he : e < 0
    · simp only [he, decide_true] at hvalue
      simp [exponentText, exponent?, he, htake, hdrop, hd.ne_nil, ofDigits_toDigits, hvalue]
    · simp only [he, decide_false] at hvalue
      simp [exponentText, exponent?, he, htake, hdrop, hd.ne_nil, ofDigits_toDigits, hvalue]

/-! ## Numbers -/

section

variable (floats : FloatReading)

/-- The sign of a number is taken off first. -/
theorem number?_sign (negative : Bool) {cs : List Char} (h : ∀ c ∈ cs.head?, c ≠ '-') :
    number? floats (signText negative ++ cs) = do
      let whole := cs.takeWhile Char.isDigit
      if whole.isEmpty || (whole.head? == some '0' && whole.length != 1) then none
      let (fraction, rest) ← fraction? (cs.dropWhile Char.isDigit)
      let (exponent, rest) ← exponent? rest
      return (numberDraft floats negative whole fraction exponent, rest) := by
  cases negative with
  | true => rfl
  | false =>
    rw [signText, if_neg Bool.false_ne_true, List.nil_append, number?]
    rintro body rfl
    exact h '-' rfl rfl

/-- The parts of a number are found again. -/
theorem number?_text (negative : Bool) {parts : NumberParts} (hp : parts.Digital)
    {rest : List Char} (h : Ends rest) :
    number? floats (signText negative ++ (parts.text ++ rest)) =
      some (numberDraft floats negative parts.whole parts.fraction parts.exponent, rest) := by
  have hnoDigit := fractionText_noDigit parts.fraction (exponentText_noDigit parts.exponent h)
  obtain ⟨htake, hdrop⟩ := Text.span_stop hp.whole.isDigit hnoDigit
  have hfraction := fraction?_text hp.fraction (exponentText_noDigit parts.exponent h)
    (exponentText_ne_point parts.exponent h)
  have hsign : ∀ c ∈ (parts.text ++ rest).head?, c ≠ '-' := by
    obtain ⟨d, ds, hw, hd⟩ := hp.whole.cons
    simpa [NumberParts.text, hw] using (Text.digitFacts hd).ne_minus
  have hwhole : (parts.whole.isEmpty ||
      (parts.whole.head? == some '0' && parts.whole.length != 1)) = false := by
    have hne := hp.whole.ne_nil
    have hu := hp.unpadded
    simp only [Unpadded] at hu
    by_cases hzero : parts.whole.head? = some '0'
    · simp [hne, hu hzero]
    · simp [hne, hzero]
  rw [number?_sign floats negative hsign, NumberParts.text, List.append_assoc, List.append_assoc]
  simp only [htake, hdrop, hwhole, hfraction, exponent?_text parts.exponent h, Option.bind_eq_bind,
    Option.bind_some, Bool.false_eq_true, if_false]
  rfl

/-- An integer of 64 bits, signed or not. -/
def FitsNumber (v : Int) : Prop := -0x8000000000000000 ≤ v ∧ v < 0x10000000000000000

theorem numberDraft_integer {v : Int} (h : FitsNumber v) :
    numberDraft floats (decide (v < 0)) (Nat.toDigits 10 v.natAbs) [] none = .integer v := by
  have hvalue : signed (decide (v < 0)) (ofDigits (Nat.toDigits 10 v.natAbs)) = v := by
    rw [ofDigits_toDigits, signed_natAbs]
  have hsign : (!decide (v < 0) || v != 0) = true := by
    by_cases hv : v < 0
    · simp only [Bool.or_eq_true, bne_iff_ne]
      exact .inr (by omega)
    · simp [hv]
  simp only [numberDraft, hvalue, hsign, List.isEmpty_nil, Option.isNone_none, Bool.true_and,
    Bool.and_eq_true, decide_eq_true_eq]
  exact if_pos h

/-- The text of an integer is read as the integer. -/
theorem number?_repr {v : Int} (hv : FitsNumber v) {rest : List Char} (h : Ends rest) :
    number? floats (v.repr.toList ++ rest) = some (.integer v, rest) := by
  have hd := isDigits_toDigits v.natAbs
  have hp : NumberParts.Digital ⟨Nat.toDigits 10 v.natAbs, [], none⟩ :=
    ⟨hd, unpadded_toDigits _, by simp, nofun⟩
  have hread := number?_text floats (decide (v < 0)) hp h
  rw [numberDraft_integer floats hv] at hread
  rw [← hread, toList_repr, List.append_assoc]
  simp [NumberParts.text, fractionText, exponentText]

theorem numberDraft_pointed (negative : Bool) {parts : NumberParts} (hp : parts.IsPointed) :
    numberDraft floats negative parts.whole parts.fraction parts.exponent =
      .float (floats negative parts.whole parts.fraction parts.exponent) := by
  have hpointed : (parts.fraction.isEmpty && parts.exponent.isNone) = false := by
    rcases hp with hf | he
    · simp [hf]
    · cases hx : parts.exponent with
      | none => exact absurd hx he
      | some e => simp
  simp only [numberDraft, hpointed, Bool.false_and, Bool.false_eq_true, if_false]

end

end Screening.Json
