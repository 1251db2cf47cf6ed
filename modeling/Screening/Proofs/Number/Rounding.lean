import Mathlib.Tactic.Ring
import Screening.Number.Shortest

/-!
# Rounding depends on the value alone

A ratio and a decimal are rounded to binary64 by their value, however it is written: a common
factor of numerator and denominator, or zeros moved between the digits and the exponent, change
nothing. The exact value of a number is rounded to the number itself.
-/

namespace Screening.Number

/-! ## Digits -/

theorem digitCount_mul_ten {n : Nat} (hn : n ≠ 0) : digitCount (n * 10) = digitCount n + 1 := by
  have h := Nat.toDigits_append_toDigits (b := 10) (d := 0) (by decide) (Nat.pos_of_ne_zero hn)
    (by decide)
  rw [Nat.add_zero, Nat.mul_comm] at h
  simp [digitCount, ← h]

theorem digitCount_le_iff {n k : Nat} (hk : 0 < k) : digitCount n ≤ k ↔ n < Nat.pow 10 k :=
  Nat.length_toDigits_le_iff (by decide) hk

/-! ## Ratios -/

theorem roundHalfEven_mul (num den : Nat) {k : Nat} (hk : 0 < k) :
    roundHalfEven (num * k) (den * k) = roundHalfEven num den := by
  have hmod : num * k % (den * k) = num % den * k := Nat.mul_mod_mul_right k num den
  have hlt : ∀ a b : Nat, a * k < b * k ↔ a < b := fun a b => Nat.mul_lt_mul_right hk
  simp only [roundHalfEven, Nat.mul_div_mul_right num den hk, hmod, ← Nat.mul_assoc, hlt]

@[simp] theorem roundHalfEven_one (n : Nat) : roundHalfEven n 1 = n := by
  simp [roundHalfEven, Nat.mod_one]

theorem roundHalfEven_mul_self (n : Nat) {k : Nat} (hk : 0 < k) : roundHalfEven (n * k) k = n := by
  have h := roundHalfEven_mul n 1 hk
  rwa [Nat.one_mul, roundHalfEven_one] at h

namespace Binary64

theorem ofUnits?_mul (negative : Bool) (num den : Nat) {k : Nat} (hk : 0 < k) :
    ofUnits? negative (num * k) (den * k) = ofUnits? negative num den := by
  simp only [ofUnits?, Nat.mul_div_mul_right num den hk]
  rw [Nat.mul_right_comm den k, roundHalfEven_mul _ _ hk]

theorem units_pos {x : Binary64} (hx : x.significand ≠ 0) : 0 < x.units :=
  Nat.mul_pos (Nat.pos_of_ne_zero hx) (Nat.pow_pos (by decide))

/-- The exponent that rounding chooses for a number's own units is its exponent. -/
theorem log2_units {x : Binary64} : x.units.log2 - 52 = x.exponent := by
  have hlt := x.significand_lt
  rcases x.normal with he | hs
  · have : x.units = x.significand := by simp [units, he]
    rw [this, he]
    by_cases h0 : x.significand = 0
    · simp [h0]
    · have := (Nat.log2_lt h0 (k := 53)).2 hlt
      omega
  · have hpos : x.units ≠ 0 := (units_pos (by omega)).ne'
    have hlog : x.units.log2 = 52 + x.exponent := by
      refine (Nat.log2_eq_iff hpos).2 ⟨?_, ?_⟩
      · calc 2 ^ (52 + x.exponent) = 0x10000000000000 * 2 ^ x.exponent := by rw [Nat.pow_add]
          _ ≤ x.units := Nat.mul_le_mul_right _ hs
      · calc x.units < 0x20000000000000 * 2 ^ x.exponent :=
              Nat.mul_lt_mul_of_pos_right hlt (Nat.pow_pos (by decide))
          _ = 2 ^ (52 + x.exponent + 1) := by ring
    omega

theorem ofUnits?_units (x : Binary64) : ofUnits? x.negative x.units 1 = some x := by
  have hround : roundHalfEven x.units (Nat.pow 2 x.exponent) = x.significand :=
    roundHalfEven_mul_self _ (Nat.pow_pos (by decide))
  simp only [ofUnits?, Nat.div_one, log2_units, Nat.one_mul, hround, pack?]
  rw [dif_pos ⟨x.significand_lt, x.exponent_le, x.normal⟩]

/-! ## Decimals -/

/-- A zero at the end of the digits may be moved into the exponent. -/
theorem ofDecimal?_mul_ten (negative : Bool) {n : Nat} (hn : n ≠ 0) (e : Int) :
    ofDecimal? ⟨negative, n * 10, e⟩ = ofDecimal? ⟨negative, n, e + 1⟩ := by
  have htop : ((digitCount (n * 10) : Nat) : Int) + e = digitCount n + (e + 1) := by
    rw [digitCount_mul_ten hn]
    omega
  have hn' : n * 10 ≠ 0 := by omega
  simp only [ofDecimal?, htop, hn, hn', if_false]
  -- both exponents count zeros, or the first alone counts places, or both do
  by_cases he : 0 ≤ e
  · have he' : 0 ≤ e + 1 := by omega
    have hpow : n * 10 * Nat.pow 10 e.toNat = n * Nat.pow 10 (e + 1).toNat := by
      rw [show (e + 1).toNat = e.toNat + 1 by omega]
      simp only [Nat.pow_eq]
      ring
    simp only [he, he', if_true, hpow]
  · by_cases he' : 0 ≤ e + 1
    · have h1 : (-e).toNat = 1 := by omega
      have h0 : (e + 1).toNat = 0 := by omega
      have hscale := ofUnits?_mul negative (n * one) 1 (k := 10) (by decide)
      rw [show n * one * 10 = n * 10 * one by ring] at hscale
      simp only [he, he', if_true, if_false, h1, h0]
      rw [show Nat.pow 10 1 = 1 * 10 from rfl, show Nat.pow 10 0 = 1 from rfl, Nat.mul_one, hscale]
    · have h1 : (-e).toNat = (-(e + 1)).toNat + 1 := by omega
      have hscale := ofUnits?_mul negative (n * one) (Nat.pow 10 (-(e + 1)).toNat) (k := 10)
        (by decide)
      rw [show n * one * 10 = n * 10 * one by ring] at hscale
      simp only [he, he', if_false, h1]
      rw [show ∀ m, Nat.pow 10 (m + 1) = Nat.pow 10 m * 10 from fun _ => rfl, hscale]

theorem ofDecimal?_mul_pow (negative : Bool) {n : Nat} (hn : n ≠ 0) (k : Nat) (e : Int) :
    ofDecimal? ⟨negative, n * 10 ^ k, e⟩ = ofDecimal? ⟨negative, n, e + k⟩ := by
  induction k generalizing e with
  | zero => simp
  | succ k ih =>
    have hn' : n * 10 ^ k ≠ 0 := Nat.mul_ne_zero hn (Nat.pow_pos (by decide)).ne'
    have hk : e + 1 + (k : Int) = e + (k + 1 : Nat) := by omega
    rw [show n * 10 ^ (k + 1) = n * 10 ^ k * 10 by ring, ofDecimal?_mul_ten _ hn', ih, hk]

theorem ofDecimal?_dropZeros (fuel : Nat) {d : Decimal} (hd : d.digits ≠ 0) :
    (Decimal.dropZeros fuel d).digits ≠ 0 ∧
      (Decimal.dropZeros fuel d).negative = d.negative ∧
      ofDecimal? (Decimal.dropZeros fuel d) = ofDecimal? d := by
  induction fuel generalizing d with
  | zero => exact ⟨hd, rfl, rfl⟩
  | succ fuel ih =>
    simp only [Decimal.dropZeros]
    split
    · next hmod =>
      have hdiv : d.digits / 10 ≠ 0 := by omega
      obtain ⟨hne, hneg, heq⟩ := ih (d := ⟨d.negative, d.digits / 10, d.exponent + 1⟩) hdiv
      refine ⟨hne, hneg, heq.trans ?_⟩
      have hten := ofDecimal?_mul_ten d.negative hdiv d.exponent
      rw [Nat.div_mul_cancel (Nat.dvd_of_mod_eq_zero hmod)] at hten
      exact hten.symm
    · exact ⟨hd, rfl, rfl⟩

theorem ofDecimal?_normalize {d : Decimal} (hd : d.digits ≠ 0) :
    d.normalize.digits ≠ 0 ∧ d.normalize.negative = d.negative ∧
      ofDecimal? d.normalize = ofDecimal? d := by
  simp only [Decimal.normalize, hd, if_false]
  exact ofDecimal?_dropZeros _ hd

end Binary64

end Screening.Number
