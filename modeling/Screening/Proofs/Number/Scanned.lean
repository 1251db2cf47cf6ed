import Screening.Proofs.Number.Layout
import Screening.Proofs.Number.Nearest
import Screening.Proofs.Token.Longest

/-!
# Numbers as they are scanned

The number of an expression is a sign or none, digits, and a point with digits behind it or none.
Its exact value is that of its digits, wherever the point stands.
-/

namespace Screening

namespace Number

/-- A number as it is written in an expression. There may be a point and no digits behind it. -/
structure Scanned where
  negative : Bool
  whole : List Char
  fraction : Option (List Char)
  whole_digits : IsDigits whole
  fraction_digits : ∀ digits, fraction = some digits → ∀ c ∈ digits, c.isDigit = true

namespace Scanned

/-- The point and what is behind it. -/
def behind : Option (List Char) → List Char
  | none => []
  | some digits => '.' :: digits

/-- The characters of the number. -/
def chars (n : Scanned) : List Char := signText n.negative ++ (n.whole ++ behind n.fraction)

/-- The text of the number. -/
def text (n : Scanned) : String := String.ofList n.chars

/-- The number as a decimal. -/
def decimal (n : Scanned) : Decimal := .ofParts n.negative n.whole (n.fraction.getD []) 0

/-- The exact value of the number. -/
def value (n : Scanned) : ℚ := n.decimal.toRat

/-- The number with a point and so many zeros behind it, if it had no point. -/
def pointed (n : Scanned) (zeros : ℕ) : Scanned where
  negative := n.negative
  whole := n.whole
  fraction := some (List.replicate zeros '0')
  whole_digits := n.whole_digits
  fraction_digits digits h c hc := by
    obtain rfl := Option.some.inj h
    rw [List.eq_of_mem_replicate hc]
    rfl

/-! ## Lexemes -/

/-- The lexemes that are numbers are these. -/
theorem isLexeme_iff {raw : List Char} :
    Lexeme.IsLexeme .number raw ↔ ∃ n : Scanned, n.chars = raw := by
  constructor
  · intro h
    generalize hk : TokenKind.number = kind at h
    cases h with
    | whole negative hd =>
      exact ⟨⟨negative, _, none, hd, by simp⟩, by rw [chars, behind, List.append_nil]⟩
    | pointed negative hw hf =>
      refine ⟨⟨negative, _, some _, hw, ?_⟩, rfl⟩
      intro digits hd
      obtain rfl := Option.some.inj hd
      exact hf
    | string => cases hk
    | word =>
      -- a word goes on with a letter, and no number does
      have hon := Lexeme.goesOn_classify (Text.upperAscii (String.ofList raw)) raw 'A'
      rw [← hk] at hon
      cases hon
    | sign hs =>
      have hall : ∀ sign ∈ Lexeme.signs, sign.1 ≠ .number := by decide
      exact absurd hk.symm (hall _ hs)
  · rintro ⟨n, rfl⟩
    cases hf : n.fraction with
    | none =>
      rw [chars, hf, behind, List.append_nil]
      exact .whole n.negative n.whole_digits
    | some digits =>
      rw [chars, hf]
      exact .pointed n.negative n.whole_digits (n.fraction_digits digits hf)

/-! ## Reading -/

/-- A number without a point is an integer, one with a point is none. -/
theorem integer?_chars (n : Scanned) :
    integer? n.chars =
      if n.fraction = none then some (signed n.negative (ofDigits n.whole)) else none := by
  cases hf : n.fraction with
  | none =>
    have hsign := takeSign_signText n.negative n.whole_digits []
    rw [List.append_nil] at hsign
    rw [chars, hf, behind, List.append_nil, if_pos rfl]
    exact integer?_eq_some.2 ⟨_, _, hsign, n.whole_digits, rfl⟩
  | some digits =>
    rw [chars, hf]
    exact (numeral?_point n.negative n.whole_digits (n.fraction_digits digits hf)).1

/-- Every number is a numeral. -/
theorem numeral?_chars (n : Scanned) : numeral? n.chars = some (.decimal n.decimal) := by
  cases hf : n.fraction with
  | none =>
    have hsign := takeSign_signText n.negative n.whole_digits []
    rw [List.append_nil] at hsign
    rw [chars, decimal, hf, behind, List.append_nil]
    exact numeral?_digits hsign n.whole_digits
  | some digits =>
    rw [chars, decimal, hf]
    exact (numeral?_point n.negative n.whole_digits (n.fraction_digits digits hf)).2

/-! ## Values -/

theorem toRat_ofDigits (negative : Bool) (n : ℕ) :
    (⟨negative, n, 0⟩ : Decimal).toRat = (signed negative n : ℤ) := by
  cases negative <;> simp [Decimal.toRat, sign, signed]

/-- The value of a number without a point. -/
theorem value_of_none {n : Scanned} (h : n.fraction = none) :
    n.value = (signed n.negative (ofDigits n.whole) : ℤ) := by
  rw [← toRat_ofDigits, value, decimal, h]
  simp [Decimal.ofParts]

/-! ## Zeros behind the point -/

section

variable {n : Scanned} (zeros : ℕ) (hf : n.fraction = none)

include hf

theorem text_pointed :
    (n.pointed zeros).text = n.text ++ "." ++ String.ofList (List.replicate zeros '0') := by
  have hpoint : "." = String.ofList ['.'] := rfl
  rw [text, text, hpoint, ← String.ofList_append, ← String.ofList_append, chars, chars, hf]
  simp [pointed, behind]

theorem decimal_pointed :
    (n.pointed zeros).decimal = ⟨n.negative, ofDigits n.whole * 10 ^ zeros, -zeros⟩ ∧
      n.decimal = ⟨n.negative, ofDigits n.whole, 0⟩ := by
  have hzeros := Binary64.ofDigits_append_zeros n.whole zeros
  constructor
  · simp [decimal, pointed, Decimal.ofParts, hzeros]
  · simp [decimal, Decimal.ofParts, hf]

theorem value_pointed : (n.pointed zeros).value = n.value := by
  obtain ⟨hp, hn⟩ := decimal_pointed zeros hf
  have hten : (10 : ℚ) ^ zeros * 10 ^ (-zeros : ℤ) = 1 := by
    rw [zpow_neg, zpow_natCast]
    exact mul_inv_cancel₀ (pow_ne_zero _ (by norm_num))
  rw [value, value, hp, hn, Decimal.toRat, Decimal.toRat]
  rw [Nat.cast_mul, Nat.cast_pow, Nat.cast_ofNat, mul_assoc (ofDigits n.whole : ℚ), hten, zpow_zero]

/-- The zeros are read as the same number. -/
theorem ofDecimal?_pointed :
    Binary64.ofDecimal? (n.pointed zeros).decimal = Binary64.ofDecimal? n.decimal := by
  obtain ⟨hp, hn⟩ := decimal_pointed zeros hf
  rw [hp, hn]
  by_cases h0 : ofDigits n.whole = 0
  · simp [Binary64.ofDecimal?, h0]
  · rw [Binary64.ofDecimal?_mul_pow n.negative h0, Int.add_left_neg]

end

end Scanned

end Number

end Screening
