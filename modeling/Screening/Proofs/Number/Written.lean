import Screening.Proofs.Number.Layout

/-!
# Numbers in every style

However a binary64 number is written, its text is a sign, digits, a fraction and an exponent. The
last two may be missing, but never both, and the parts read back as the number. Zero is no
exception.
-/

namespace Screening.Number

/-! ## Parts of a text -/

/-- A point and the digits behind it, if there are any. -/
def fractionText : List Char → List Char
  | [] => []
  | digits => '.' :: digits

/-- An exponent with its sign, if there is one. -/
def exponentText : Option Int → List Char
  | none => []
  | some e => 'e' :: (if e < 0 then '-' else '+') :: Nat.toDigits 10 e.natAbs

/-- The parts of a number's text, the sign apart. -/
structure NumberParts where
  whole : List Char
  fraction : List Char
  exponent : Option Int

namespace NumberParts

/-- The text of the parts. -/
def text (parts : NumberParts) : List Char :=
  parts.whole ++ (fractionText parts.fraction ++ exponentText parts.exponent)

/-- The parts consist of digits, and no zero is in front of others. Where there is an exponent, no zero
is in front at all. -/
structure Digital (parts : NumberParts) : Prop where
  whole : IsDigits parts.whole
  unpadded : Unpadded parts.whole
  fraction : ∀ c ∈ parts.fraction, c.isDigit = true
  leading : parts.exponent ≠ none → parts.whole.head? ≠ some '0'

/-- The decimal that the parts stand for. -/
def decimal (negative : Bool) (parts : NumberParts) : Decimal :=
  .ofParts negative parts.whole parts.fraction (parts.exponent.getD 0)

/-- There is a fraction or an exponent, as no integer has. -/
def IsPointed (parts : NumberParts) : Prop := parts.fraction ≠ [] ∨ parts.exponent ≠ none

end NumberParts

/-! ## Layouts -/

namespace Binary64

/-- The parts of the digits of `n` with a point behind the first of them. -/
theorem layScientific_eq (n : Nat) (e : Int) :
    layScientific (Nat.toDigits 10 n) e =
      NumberParts.text ⟨(Nat.toDigits 10 n).take 1, (Nat.toDigits 10 n).tail, some e⟩ := by
  simp only [layScientific, NumberParts.text, exponentText, List.append_assoc]
  cases (Nat.toDigits 10 n).tail <;> rfl

theorem digital_scientific {n : Nat} (hn : n ≠ 0) (e : Int) :
    NumberParts.Digital ⟨(Nat.toDigits 10 n).take 1, (Nat.toDigits 10 n).tail, some e⟩ := by
  have hd := isDigits_toDigits n
  have hone : ((Nat.toDigits 10 n).take 1).length = 1 := by
    have := List.length_pos_iff.2 hd.ne_nil
    rw [List.length_take]
    omega
  refine ⟨⟨?_, fun c hc => hd.isDigit c (List.mem_of_mem_take hc)⟩, fun _ => hone,
    fun c hc => hd.isDigit c (List.mem_of_mem_tail hc), fun _ => ?_⟩
  · rw [← List.length_pos_iff, hone]
    decide
  · rw [List.head?_take, if_neg Nat.one_ne_zero]
    exact head?_toDigits_ne hn

/-- The exponent counts from the first digit, that of a decimal from the last. -/
theorem decimal_scientific (negative : Bool) (n : Nat) (e : Int) :
    NumberParts.decimal negative ⟨(Nat.toDigits 10 n).take 1, (Nat.toDigits 10 n).tail,
      some (e + (Nat.toDigits 10 n).length - 1)⟩ = ⟨negative, n, e⟩ := by
  have hlen := List.length_pos_iff.2 (isDigits_toDigits n).ne_nil
  have hexp : e + (Nat.toDigits 10 n).length - 1 - ((Nat.toDigits 10 n).tail.length : Nat) = e := by
    rw [List.length_tail]
    omega
  simp only [NumberParts.decimal, Decimal.ofParts, Option.getD_some, hexp]
  rw [← List.drop_one, List.take_append_drop, ofDigits_toDigits]

/-- The text is a sign and parts that are no integer's, and these have the value. -/
def Writes (text : String) (negative : Bool) (value : Option Binary64) : Prop :=
  ∃ parts : NumberParts, text.toList = signText negative ++ parts.text ∧ parts.Digital ∧
    parts.IsPointed ∧ ofDecimal? (parts.decimal negative) = value

theorem toList_layOut (style : NumberStyle) (d : Decimal) (body : List Char)
    (h : (if style.positional (d.exponent + (Nat.toDigits 10 d.digits).length - 1) then
      layPositional (Nat.toDigits 10 d.digits) d.exponent
      else layScientific (Nat.toDigits 10 d.digits)
        (d.exponent + (Nat.toDigits 10 d.digits).length - 1)) = body) :
    (layOut style d).toList = signText d.negative ++ body := by
  simp only [layOut, h, String.toList_ofList, signText]
  split <;> rfl

/-- A decimal other than zero is written as its value in every style. -/
theorem writes_layOut (style : NumberStyle) {d : Decimal} (hd : d.digits ≠ 0) :
    Writes (layOut style d) d.negative (ofDecimal? d) := by
  by_cases hpos : style.positional (d.exponent + (Nat.toDigits 10 d.digits).length - 1) = true
  · obtain ⟨whole, fraction, hlay, hw, hu, hf, hval⟩ :=
      layPositional_spec d.negative hd d.exponent
    refine ⟨⟨whole, fraction, none⟩, ?_, ⟨hw, hu, hf.isDigit, nofun⟩, .inl hf.ne_nil, hval⟩
    apply toList_layOut
    rw [if_pos hpos, hlay]
    have hpoint : fractionText fraction = '.' :: fraction := by
      cases fraction with
      | nil => exact absurd rfl hf.ne_nil
      | cons => rfl
    rw [NumberParts.text, hpoint, exponentText, List.append_nil]
  · refine ⟨⟨_, _, some (d.exponent + (Nat.toDigits 10 d.digits).length - 1)⟩, ?_,
      digital_scientific hd _, .inr (Option.some_ne_none _), ?_⟩
    · apply toList_layOut
      rw [if_neg hpos, layScientific_eq]
    · rw [decimal_scientific]

/-- Zero is the one number without a significand. -/
theorem eq_zero_of_significand {x : Binary64} (hx : x.significand = 0) : x = zero x.negative := by
  obtain ⟨negative, significand, exponent, hlt, hle, hnormal⟩ := x
  obtain rfl : significand = 0 := hx
  obtain rfl : exponent = 0 := hnormal.resolve_right (by decide)
  rfl

theorem shortest_zero (tie : Tie) (negative : Bool) :
    (zero negative).shortest tie = ⟨negative, 0, 0⟩ := by
  cases tie <;> cases negative <;> decide +kernel

/-- A number is written as itself in every style that writes zero without an exponent. -/
theorem writes_write (style : NumberStyle) (hzero : style.positional 0 = true) (x : Binary64) :
    Writes (x.write style) x.negative (some x) := by
  by_cases hx : x.significand = 0
  · rw [eq_zero_of_significand hx, write, shortest_zero]
    have hdigit : ∀ c ∈ ['0'], c.isDigit = true := List.forall_mem_singleton.2 rfl
    refine ⟨⟨['0'], ['0'], none⟩, ?_, ⟨⟨by simp, hdigit⟩, fun _ => rfl, hdigit, nofun⟩,
      .inl (by simp), rfl⟩
    apply toList_layOut
    rw [Nat.toDigits_zero, if_pos (by exact hzero)]
    rfl
  · obtain ⟨hne, hneg, hread⟩ := shortest_spec style.tie hx
    have h := writes_layOut style hne
    rwa [hneg, hread] at h

end Binary64

end Screening.Number
