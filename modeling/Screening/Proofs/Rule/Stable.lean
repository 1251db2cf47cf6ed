import Screening.Proofs.Number.Rounding
import Screening.Proofs.Rule.Classified

/-!
# Stable numbers

What becomes of the number that a text is read as. Integers of 64 bits keep their value, and any
other number keeps its value after rounding, so the two ways to read a number agree in binary64. And
the literal is read back from its own text.
-/

namespace Screening

open Number

/-! ## Values of binary64 -/

namespace Number.Binary64

/-- An integer below the limit has a nearest number. -/
theorem ofInt?_spec {v : ℤ} (h : |(v : ℚ)| < overflow) :
    ∃ x, ofInt? v = some x ∧ x.IsNearest v := by
  have hspec := ofUnits?_spec (v < 0) (v.natAbs * one) Nat.one_pos
  have hvalue : ((v.natAbs * one : ℕ) : ℚ) / (1 : ℕ) / one = v.natAbs := by
    rw [Nat.cast_one, div_one, Nat.cast_mul, mul_div_cancel_right₀ _ one_pos.ne']
  have hsize : ((v.natAbs * one : ℕ) : ℚ) / (1 : ℕ) < overflow * one := by
    rw [← div_lt_iff₀ one_pos, hvalue, Nat.cast_natAbs, Int.cast_abs]
    exact h
  rw [if_pos hsize] at hspec
  obtain ⟨x, hx, -, hnearest⟩ := hspec
  rw [hvalue, ← Literal.signed_eq_sign, signed_natAbs] at hnearest
  exact ⟨x, hx, hnearest⟩

end Number.Binary64

namespace Literal

/-! ## Values of literals -/

/-- The binary64 number that is nearest to a number. -/
def toBinary64? : Literal → Option Binary64
  | .float x => some x
  | v => v.toInt?.bind Binary64.ofInt?

theorem toBinary64?_of_toInt? {l : Literal} {v : ℤ} (h : l.toInt? = some v) :
    l.toBinary64? = Binary64.ofInt? v := by
  cases l with
  | float x => cases h
  | _ =>
    rw [toBinary64?, h, Option.bind_some]
    exact fun x => Literal.noConfusion

theorem text_of_toInt? {l : Literal} {v : ℤ} (h : l.toInt? = some v) : l.text = v.repr := by
  cases l with
  | int32 w =>
    cases h
    rfl
  | int64 w =>
    cases h
    rfl
  | _ => cases h

/-- The text of an integer is read as the integer. -/
theorem ofNumberText?_narrow {v : ℤ} (h : fits64 v = true) :
    ofNumberText? (narrow (.ofInt v)).text = some (narrow (.ofInt v)) := by
  rw [text_of_toInt? (toInt?_narrow h), ofNumberText?_repr h]

/-- What is narrowed is the same number in binary64 as whatever else is nearest to the integer. -/
theorem exists_same_of_isNearest {v : ℤ} (h : fits64 v = true) {z : Binary64}
    (hz : z.IsNearest v) :
    ∃ y, (narrow (.ofInt v)).toBinary64? = some y ∧ y.same z = true := by
  obtain ⟨y, hy, hnearest⟩ := Binary64.ofInt?_spec (isInt64_intCast.2 h).lt_overflow
  refine ⟨y, ?_, Binary64.same_of_toRat_eq (hnearest.toRat_eq hz)⟩
  rw [toBinary64?_of_toInt? (toInt?_narrow h), hy]

/-! ## Texts -/

theorem numeral?_of_integer? {cs : List Char} {v : ℤ} (h : integer? cs = some v) :
    ∃ d, numeral? cs = some (.decimal d) ∧ d.toRat = v := by
  obtain ⟨negative, digits, hsign, hd, rfl⟩ := integer?_eq_some.1 h
  refine ⟨_, numeral?_digits hsign hd, ?_⟩
  rw [← Scanned.toRat_ofDigits]
  simp [Decimal.ofParts]

/-- A text is taken as an integer of 64 bits, or else rounded as a decimal, or it is no number. -/
theorem ofNumberText?_cases (text : String) :
    (∃ v, integer? text.toList = some v ∧ fits64 v = true ∧
      ofNumberText? text = some (narrow (.ofInt v))) ∨
    (∃ d, (∀ v, integer? text.toList = some v → fits64 v = false) ∧
      numeral? text.toList = some (.decimal d) ∧
      ofNumberText? text = (Binary64.ofDecimal? d).map ofBinary64) ∨
    (∀ d, numeral? text.toList ≠ some (.decimal d)) ∧ ofNumberText? text = none := by
  by_cases hint : ∃ v, integer? text.toList = some v ∧ fits64 v = true
  · obtain ⟨v, hv, hfits⟩ := hint
    left
    refine ⟨v, hv, hfits, ?_⟩
    rw [ofNumberText?, hv, Option.filter_some, if_pos hfits]
  · have hnot : ∀ v, integer? text.toList = some v → fits64 v = false := by
      intro v hv
      exact Bool.eq_false_iff.2 fun hfits => hint ⟨v, hv, hfits⟩
    have hnone : (integer? text.toList).filter fits64 = none := by
      rw [Option.filter_eq_none_iff]
      intro v hv
      rw [hnot v hv]
      exact Bool.false_ne_true
    right
    simp only [ofNumberText?, hnone]
    by_cases hnumeral : ∃ d, numeral? text.toList = some (.decimal d)
    · obtain ⟨d, hd⟩ := hnumeral
      left
      refine ⟨d, hnot, hd, ?_⟩
      simp only [hd]
    · right
      refine ⟨fun d hd => hnumeral ⟨d, hd⟩, ?_⟩
      split
      · next d hd => exact absurd ⟨d, hd⟩ hnumeral
      · rfl

/-- There is a literal as long as the value is one that binary64 holds. -/
theorem ofNumberText?_eq_none_iff {text : String} :
    ofNumberText? text = none ↔
      ∀ d, numeral? text.toList = some (.decimal d) → Binary64.overflow ≤ |d.toRat| := by
  rcases ofNumberText?_cases text with ⟨v, hv, hfits, hread⟩ | ⟨d, -, hd, hread⟩ | ⟨hno, hread⟩
  · obtain ⟨d, hd, hvalue⟩ := numeral?_of_integer? hv
    have hlt : |d.toRat| < Binary64.overflow := hvalue ▸ (isInt64_intCast.2 hfits).lt_overflow
    rw [hread]
    constructor
    · intro hnone
      cases hnone
    · intro hbeyond
      exact absurd hlt (not_lt.2 (hbeyond d hd))
  · have hspec := Binary64.ofDecimal?_spec d
    rw [hread, Option.map_eq_none_iff]
    constructor
    · intro hnone e he
      rw [hd] at he
      cases he
      by_contra hlt
      rw [if_pos (not_le.1 hlt)] at hspec
      obtain ⟨z, hz, -⟩ := hspec
      rw [hz] at hnone
      cases hnone
    · intro hbeyond
      rwa [if_neg (not_lt.2 (hbeyond d hd))] at hspec
  · exact ⟨fun _ d hd => absurd hd (hno d), fun _ => hread⟩

/-! ## Stability -/

/-- The literal `v` is what the number that `text` is read as should become. -/
structure Stable (text : String) (v : Literal) : Prop where
  /-- No narrower kind of literal holds the value. -/
  canonical : v.Canonical
  /-- In binary64 the literal is the number that the text is read as, the two zeros being one. And an
  integer is not just near to it: it is the text's own, or exactly the rounded number. -/
  rounded : ∃ d z y, numeral? text.toList = some (.decimal d) ∧
    Binary64.ofDecimal? d = some z ∧ v.toBinary64? = some y ∧ y.same z = true ∧
    ∀ n, v.toInt? = some n → integer? text.toList = some n ∨ z.toRat = n
  /-- An integer of 64 bits keeps its value. -/
  whole : ∀ n, integer? text.toList = some n → fits64 n = true → v.toInt? = some n
  /-- The literal is read back from its own text. -/
  text : ofNumberText? v.text = some v

theorem stable_integer {text : String} {v : ℤ} (h : integer? text.toList = some v)
    (hv : fits64 v = true) : Stable text (narrow (.ofInt v)) where
  canonical := canonical_narrow _
  rounded := by
    obtain ⟨d, hd, hvalue⟩ := numeral?_of_integer? h
    have hspec := Binary64.ofDecimal?_spec d
    rw [hvalue, if_pos (isInt64_intCast.2 hv).lt_overflow] at hspec
    obtain ⟨z, hz, -, hnearest⟩ := hspec
    obtain ⟨y, hy, hsame⟩ := exists_same_of_isNearest hv hnearest
    refine ⟨d, z, y, hd, hz, hy, hsame, fun n hn => .inl ?_⟩
    rw [toInt?_narrow hv] at hn
    rw [h, hn]
  whole n hn _ := by
    rw [toInt?_narrow hv, ← h, hn]
  text := ofNumberText?_narrow hv

/-- A rounded number is an integer of 64 bits, or it is left as it is. -/
theorem ofBinary64_cases (z : Binary64) :
    (∃ v, z.toInt? = some v ∧ fits64 v = true ∧ ofBinary64 z = narrow (.ofInt v)) ∨
      ofBinary64 z = .float z := by
  rw [ofBinary64]
  split
  · next v hv =>
    split
    · next hfits => exact .inl ⟨v, hv, hfits, rfl⟩
    · exact .inr rfl
  · exact .inr rfl

theorem stable_rounded {text : String}
    (h : ∀ v, integer? text.toList = some v → fits64 v = false) {d : Decimal}
    (hd : numeral? text.toList = some (.decimal d)) {z : Binary64}
    (hz : Binary64.ofDecimal? d = some z) : Stable text (ofBinary64 z) := by
  have hcanonical := canonical_ofBinary64 z
  have hwhole : ∀ v : Literal, ∀ n, integer? text.toList = some n → fits64 n = true →
      v.toInt? = some n := by
    intro v n hn hfits
    rw [h n hn] at hfits
    cases hfits
  rcases ofBinary64_cases z with ⟨v, hv, hfits, heq⟩ | heq
  · have hvalue := toRat_of_toInt? hv
    have hnearest : z.IsNearest v := hvalue ▸ z.isNearest_self
    obtain ⟨y, hy, hsame⟩ := exists_same_of_isNearest hfits hnearest
    rw [heq] at hcanonical ⊢
    refine ⟨hcanonical, ⟨d, z, y, hd, hz, hy, hsame, ?_⟩, hwhole _, ofNumberText?_narrow hfits⟩
    intro n hn
    rw [toInt?_narrow hfits] at hn
    right
    rw [hvalue, Option.some.inj hn]
  · rw [heq] at hcanonical ⊢
    have hsame : z.same z = true := Binary64.same_of_toRat_eq rfl
    refine ⟨hcanonical, ⟨d, z, z, hd, hz, rfl, hsame, ?_⟩, hwhole _,
      (ofNumberText?_float hcanonical).1⟩
    intro n hn
    cases hn

/-- Numbers are canonical and stable: whatever literal a text is read as is the one that it should
become, and a text has no literal exactly if it is no decimal numeral or one whose value is beyond
what binary64 holds. -/
theorem ofNumberText?_stable (text : String) :
    (ofNumberText? text = none ↔
      ∀ d, numeral? text.toList = some (.decimal d) → Binary64.overflow ≤ |d.toRat|) ∧
    ∀ v, ofNumberText? text = some v → Stable text v := by
  refine ⟨ofNumberText?_eq_none_iff, ?_⟩
  intro v hv
  rcases ofNumberText?_cases text with ⟨n, hn, hfits, hread⟩ | ⟨d, hnot, hd, hread⟩ | ⟨-, hread⟩
  · cases hread.symm.trans hv
    exact stable_integer hn hfits
  · obtain ⟨z, hz, rfl⟩ := Option.map_eq_some_iff.1 (hread.symm.trans hv)
    exact stable_rounded hnot hd hz
  · cases hread.symm.trans hv

/-- The greatest integer of 64 bits keeps its value, and with a point it is rounded to one that has
none of 64 bits. -/
theorem ofNumberText?_stable_greatest :
    Stable "9223372036854775807" (.int64 9223372036854775807) ∧
      ∃ x : Binary64, x.toInt? = some 9223372036854775808 ∧
        Stable "9223372036854775807.0" (.float x) := by
  have hwhole : ofNumberText? "9223372036854775807" = some (.int64 9223372036854775807) := by
    decide +kernel
  let x : Binary64 := ⟨false, 2 ^ 52, 1085, by decide, by decide, .inr (by decide)⟩
  have hpoint : ofNumberText? "9223372036854775807.0" = some (.float x) := by decide +kernel
  have hx : x.toInt? = some 9223372036854775808 := by decide +kernel
  exact ⟨(ofNumberText?_stable _).2 _ hwhole, x, hx, (ofNumberText?_stable _).2 _ hpoint⟩

end Literal

end Screening
