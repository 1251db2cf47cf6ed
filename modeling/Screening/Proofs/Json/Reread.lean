import Screening.Proofs.Json.Float
import Screening.Proofs.Json.Number

/-!
# Floats that are written and read again

What a reading makes of the text of a binary64 number. Correct rounding makes the number itself of it.
The best effort makes some number of it, though not always the same: of all numbers only the three
largest are near enough to the limit for its rounding to matter, and they are read as well. A number
that is written with few digits is read as itself.
-/

namespace Screening.Json

open Number

namespace FloatReading

/-- The float that was read, if it was one. -/
def float? : Option (Draft × List Char) → Option Binary64
  | some (.float x, _) => x
  | _ => none

/-- What the text of a number is read as. -/
def reread? (floats : FloatReading) (x : Binary64) : Option Binary64 :=
  float? (number? floats (x.write numberStyle).toList)

theorem reread?_eq {floats : FloatReading} {x : Binary64} {y : Option Binary64} {rest : List Char}
    (h : number? floats (x.write numberStyle).toList = some (.float y, rest)) :
    floats.reread? x = y :=
  congrArg float? h

/-- The parts that a number is written with, and that stand for it. -/
structure Written (x : Binary64) (parts : NumberParts) : Prop where
  text : (x.write numberStyle).toList = signText x.negative ++ parts.text
  digital : parts.Digital
  pointed : parts.IsPointed
  value : Binary64.ofDecimal? (parts.decimal x.negative) = some x

theorem exists_written (x : Binary64) : ∃ parts, Written x parts := by
  have hzero : numberStyle.positional 0 = true := rfl
  obtain ⟨parts, htext, hdigital, hpointed, hvalue⟩ := x.writes_write numberStyle hzero
  exact ⟨parts, htext, hdigital, hpointed, hvalue⟩

section

variable {x : Binary64} {parts : NumberParts}

theorem Written.number? (h : Written x parts) (floats : FloatReading) {rest : List Char}
    (hrest : Ends rest) :
    number? floats ((x.write numberStyle).toList ++ rest) =
      some (.float (floats x.negative parts.whole parts.fraction parts.exponent), rest) := by
  rw [h.text, List.append_assoc, number?_text floats x.negative h.digital hrest,
    numberDraft_pointed floats x.negative h.pointed]

/-- A number is read from its parts. -/
theorem Written.reread? (h : Written x parts) (floats : FloatReading) :
    floats.reread? x = floats x.negative parts.whole parts.fraction parts.exponent := by
  have hread := h.number? floats Ends.nil
  rw [List.append_nil] at hread
  exact reread?_eq hread

end

/-- Correct rounding reads a number from its text. -/
theorem CorrectlyRounded.reread? {floats : FloatReading} (h : floats.CorrectlyRounded)
    (x : Binary64) : floats.reread? x = some x := by
  obtain ⟨parts, hparts⟩ := exists_written x
  have hdigits : ∀ c ∈ parts.whole ++ parts.fraction, c.isDigit = true := fun c hc =>
    (List.mem_append.1 hc).elim (hparts.digital.whole.isDigit c) (hparts.digital.fraction c)
  rw [hparts.reread?, h.eq_nearest hdigits]
  exact hparts.value

/-- Every number is read from its text, as what `f` makes of it. -/
def Rereads (floats : FloatReading) (f : Binary64 → Binary64) : Prop :=
  ∀ x, floats.reread? x = some (f x)

theorem CorrectlyRounded.rereads {floats : FloatReading} (h : floats.CorrectlyRounded) :
    floats.Rereads id :=
  h.reread?

/-! ## Best effort -/

/-- There is room for a best effort between the third largest number and the limit. -/
theorem units_slack_lt {y : Binary64} (hsignificand : y.significand = 2 ^ 53 - 3)
    (hexponent : y.exponent = 2044 + 1) :
    (y.units : ℚ) / Binary64.one * slack < Binary64.overflow := by
  have htop : (0 : ℚ) < 2 ^ 2044 := by positivity
  rw [div_mul_eq_mul_div, div_lt_iff₀ Binary64.one_pos, Binary64.overflow_mul_one, y.cast_units,
    hsignificand, hexponent, pow_succ (2 : ℚ) 2044]
  generalize (2 : ℚ) ^ 2044 = top at htop
  norm_num [slack, growth]
  linarith

/-- A decimal that is too near to the limit for the rounding of a best effort is that of one of the three
largest numbers. -/
theorem eq_largest {x : Binary64} {d : Decimal} (hsign : x.negative = d.negative)
    (hnearest : x.IsNearest d.toRat) (hlarge : Binary64.overflow ≤ d.magnitude * slack) :
    x.exponent = 2045 ∧ 0x1ffffffffffffd ≤ x.significand := by
  let y : Binary64 := ⟨false, 0x1ffffffffffffd, 2045, by decide, by decide, .inr (by decide)⟩
  have hslack : (0 : ℚ) < slack := by norm_num [slack, growth]
  have hle : (y.units : ℚ) / Binary64.one ≤ d.magnitude :=
    le_of_mul_le_mul_right ((units_slack_lt rfl rfl).le.trans hlarge) hslack
  have hunits : y.units ≤ x.units := by
    refine Binary64.IsNearest.units_le ?_ hle
    rwa [hsign]
  exact Binary64.le_of_units_le (y := y) (by decide) x.exponent_le hunits

/-- The exponent of a number's text is no larger than that of the largest number. -/
theorem exponent_le {negative : Bool} {parts : NumberParts} (h : parts.Digital)
    (hfinite : (parts.decimal negative).magnitude < Binary64.overflow) :
    ∀ e ∈ parts.exponent, e ≤ 0x7fffffff := by
  intro e he
  have hexponent : parts.exponent = some e := he
  have hwhole := h.whole.one_le (h.leading (by rw [hexponent]; exact Option.some_ne_none e))
  have hdigits : 10 ^ parts.fraction.length ≤ ofDigits (parts.whole ++ parts.fraction) := by
    rw [ofDigits_append]
    exact (Nat.le_mul_of_pos_left _ hwhole).trans (Nat.le_add_right _ _)
  have hcast : ((10 ^ parts.fraction.length : ℕ) : ℚ) ≤
      ofDigits (parts.whole ++ parts.fraction) := Nat.cast_le.2 hdigits
  have hpow : (0 : ℚ) < 10 ^ (e - parts.fraction.length) := by positivity
  have hlow : (10 : ℚ) ^ e ≤ (parts.decimal negative).magnitude := by
    have hsplit : e = parts.fraction.length + (e - parts.fraction.length) := by omega
    rw [Nat.cast_pow, Nat.cast_ofNat] at hcast
    rw [NumberParts.decimal, Decimal.ofParts, Decimal.magnitude, hexponent, Option.getD_some]
    calc (10 : ℚ) ^ e = 10 ^ parts.fraction.length * 10 ^ (e - parts.fraction.length) := by
          rw [← zpow_natCast, ← zpow_add₀ (by norm_num), ← hsplit]
      _ ≤ _ := mul_le_mul_of_nonneg_right hcast hpow.le
  have hlt : (10 : ℚ) ^ e < 10 ^ (309 : ℤ) := (hlow.trans_lt hfinite).trans_le Binary64.overflow_le
  have := (zpow_lt_zpow_iff_right₀ (by norm_num : (1 : ℚ) < 10)).1 hlt
  omega

theorem isSome_reread?_largest :
    ∀ (negative : Bool) (k : Fin 3), (bestEffort.reread? ⟨negative, 0x1ffffffffffffd + k, 2045,
      by omega, by decide, .inr (by omega)⟩).isSome := by
  decide +kernel

theorem exists_reread?_largest {x : Binary64} (hexponent : x.exponent = 2045)
    (hsignificand : 0x1ffffffffffffd ≤ x.significand) : ∃ y, bestEffort.reread? x = some y := by
  obtain ⟨negative, significand, exponent, hlt, hle, hnormal⟩ := x
  obtain rfl : exponent = 2045 := hexponent
  obtain ⟨k, rfl⟩ := Nat.exists_eq_add_of_le hsignificand
  exact Option.isSome_iff_exists.1 (isSome_reread?_largest negative ⟨k, by omega⟩)

/-- The best effort reads some number from the text of a number. -/
theorem exists_reread? (x : Binary64) : ∃ y, bestEffort.reread? x = some y := by
  obtain ⟨parts, hparts⟩ := exists_written x
  have hspec := Binary64.ofDecimal?_spec (parts.decimal x.negative)
  rw [hparts.value] at hspec
  split at hspec
  · next hfinite =>
    obtain ⟨y, hy, -, hnearest⟩ := hspec
    obtain rfl : x = y := Option.some.inj hy
    rw [Decimal.abs_toRat] at hfinite
    rcases lt_or_ge ((parts.decimal x.negative).magnitude * slack) Binary64.overflow with hlt | hge
    · rw [hparts.reread?]
      exact exists_bestEffort hparts.digital.whole.isDigit hparts.digital.fraction
        (exponent_le hparts.digital hfinite) hlt
    · obtain ⟨hexponent, hsignificand⟩ := eq_largest rfl hnearest hge
      exact exists_reread?_largest hexponent hsignificand
  · cases hspec

/-- What the best effort reads from the text of a number. -/
def reread (x : Binary64) : Binary64 := (bestEffort.reread? x).getD x

theorem rereads_bestEffort : bestEffort.Rereads reread := by
  intro x
  obtain ⟨y, hy⟩ := exists_reread? x
  rw [reread, hy, Option.getD_some]

theorem negative_reread (x : Binary64) : (reread x).negative = x.negative := by
  obtain ⟨parts, hparts⟩ := exists_written x
  exact negative_of_bestEffort ((hparts.reread? bestEffort).symm.trans (rereads_bestEffort x))

/-- A zero is read with its sign, so a number that is read as an equal one is read as itself. -/
theorem same_reread (x : Binary64) : (reread x).same x = true ↔ reread x = x :=
  Binary64.same_iff_eq (negative_reread x)

/-- A number that is written with few digits is read as itself. -/
theorem reread_eq_self {x : Binary64} {parts : NumberParts} (hparts : Written x parts)
    (hfew : Few parts.whole parts.fraction parts.exponent) : reread x = x := by
  have hread := hparts.reread? bestEffort
  rw [hfew.bestEffort_eq_nearest, ← hparts.reread? nearest, correctlyRounded_nearest.reread?,
    rereads_bestEffort] at hread
  exact Option.some.inj hread

end FloatReading

/-! ## Texts of numbers -/

/-- The text of a number is read up to where it ends. -/
theorem number?_write {floats : FloatReading} {f : Binary64 → Binary64} (hf : floats.Rereads f)
    (x : Binary64) {rest : List Char} (h : Ends rest) :
    number? floats ((x.write numberStyle).toList ++ rest) = some (.float (f x), rest) := by
  obtain ⟨parts, hparts⟩ := FloatReading.exists_written x
  rw [hparts.number? floats h, ← hparts.reread? floats, hf]

end Screening.Json
