import Mathlib.Algebra.Order.Field.Power
import Mathlib.Algebra.Order.Field.Rat
import Mathlib.Data.Rat.Cast.Lemmas
import Mathlib.Tactic.FieldSimp
import Mathlib.Tactic.Linarith
import Mathlib.Tactic.Positivity
import Screening.Proofs.Number.ReadBack

/-!
# Correct rounding

A decimal is read as the binary64 number nearest to it among all there are, a tie going to the
even significand, and is infinite exactly from half a unit above the largest number on.
-/

namespace Screening.Number

/-! ## Values -/

/-- One with the given sign. -/
def sign (negative : Bool) : ℚ := if negative then -1 else 1

theorem abs_sign (negative : Bool) : |sign negative| = 1 := by
  cases negative <;> simp [sign]

/-- The exact value of a decimal. -/
def Decimal.toRat (d : Decimal) : ℚ := sign d.negative * (d.digits * 10 ^ d.exponent)

/-- The exact value of a binary64 number. -/
def Binary64.toRat (x : Binary64) : ℚ := sign x.negative * (x.units / Binary64.one)

/-- The number is nearest to the value among all of the format. If another is as near, its
significand is even. -/
structure Binary64.IsNearest (q : ℚ) (x : Binary64) : Prop where
  le : ∀ y : Binary64, |q - x.toRat| ≤ |q - y.toRat|
  even : ∀ y : Binary64, |q - x.toRat| = |q - y.toRat| →
    y.toRat = x.toRat ∨ x.significand % 2 = 0

/-- Half a unit in the last place above the largest number. From here on values are infinite. -/
def Binary64.overflow : ℚ := (2 ^ 54 - 1) * 2 ^ 970

/-! ## Whole numbers -/

/-- The whole number is nearest to the value, and even if another is as near. -/
structure IsRounded (t : ℚ) (s : ℕ) : Prop where
  le_half : |t - s| ≤ 1 / 2
  even : |t - s| = 1 / 2 → s % 2 = 0

/-- A ratio is rounded down up to a half and up from a half on, with a half to the even one. -/
theorem roundHalfEven_cases (num den : ℕ) :
    roundHalfEven num den = num / den ∧ 2 * (num % den) ≤ den ∧
        (2 * (num % den) = den → (num / den) % 2 = 0) ∨
      roundHalfEven num den = num / den + 1 ∧ den ≤ 2 * (num % den) ∧
        (2 * (num % den) = den → (num / den + 1) % 2 = 0) := by
  simp only [roundHalfEven]
  split
  · next hlow => exact .inl ⟨rfl, hlow.le, fun h => absurd h hlow.ne⟩
  · split
    · next hhigh => exact .inr ⟨rfl, hhigh.le, fun h => absurd h.symm hhigh.ne⟩
    · rcases Nat.mod_two_eq_zero_or_one (num / den) with h | h <;> rw [h]
      · left
        omega
      · right
        omega

theorem isRounded_roundHalfEven (num : ℕ) {den : ℕ} (hden : 0 < den) :
    IsRounded (num / den) (roundHalfEven num den) := by
  have hden' : (0 : ℚ) < den := by exact_mod_cast hden
  have hsplit : (num : ℚ) / den = (num / den : ℕ) + (num % den : ℕ) / den := by
    have h : ((num / den : ℕ) : ℚ) * den + (num % den : ℕ) = num := by
      exact_mod_cast Nat.div_add_mod' num den
    field_simp
    linarith
  have hlt : ((num % den : ℕ) : ℚ) / den < 1 := by
    rw [div_lt_one hden']
    exact_mod_cast Nat.mod_lt num hden
  have hnonneg : (0 : ℚ) ≤ (num % den : ℕ) / den := by positivity
  have hhalf : ((num % den : ℕ) : ℚ) / den = 1 / 2 ↔ 2 * (num % den) = den := by
    rw [div_eq_div_iff hden'.ne' two_ne_zero, one_mul, mul_comm]
    exact_mod_cast Iff.rfl
  rw [hsplit]
  rcases roundHalfEven_cases num den with ⟨hs, hle, heven⟩ | ⟨hs, hle, heven⟩
  · have hle' : ((num % den : ℕ) : ℚ) / den ≤ 1 / 2 := by
      rw [div_le_div_iff₀ hden' two_pos, one_mul, mul_comm]
      exact_mod_cast hle
    rw [hs]
    constructor
    · rw [add_sub_cancel_left, abs_of_nonneg hnonneg]
      exact hle'
    · rw [add_sub_cancel_left, abs_of_nonneg hnonneg, hhalf]
      exact heven
  · have hle' : 1 / 2 ≤ ((num % den : ℕ) : ℚ) / den := by
      rw [div_le_div_iff₀ two_pos hden', one_mul, mul_comm]
      exact_mod_cast hle
    have habs : |((num / den : ℕ) : ℚ) + (num % den : ℕ) / den - (num / den + 1 : ℕ)| =
        1 - (num % den : ℕ) / den := by
      rw [abs_sub_comm, abs_of_nonneg] <;> push_cast <;> linarith
    rw [hs]
    constructor
    · rw [habs]
      linarith
    · rw [habs]
      intro h
      exact heven (hhalf.1 (by linarith))

namespace IsRounded

variable {t : ℚ} {s : ℕ}

/-- No whole number is nearer. -/
theorem le (h : IsRounded t s) (v : ℤ) :
    |t - s| ≤ |t - v| ∧ (|t - s| = |t - v| → v = s ∨ s % 2 = 0) := by
  by_cases hv : v = s
  · subst hv
    exact ⟨le_of_eq (by push_cast; rfl), fun _ => .inl rfl⟩
  · -- two whole numbers are one apart, and so one half at least from what is between them
    have hapart : (1 : ℚ) ≤ |(s : ℚ) - v| := by
      have hne : (s : ℤ) - v ≠ 0 := sub_ne_zero.2 (Ne.symm hv)
      exact_mod_cast Int.one_le_abs hne
    have htriangle : |(s : ℚ) - v| ≤ |t - s| + |t - v| := by
      have := abs_sub_le (s : ℚ) t v
      rwa [abs_sub_comm (s : ℚ) t] at this
    have hhalf := h.le_half
    refine ⟨by linarith, fun heq => .inr (h.even ?_)⟩
    linarith

theorem le_of_le (h : IsRounded t s) {k : ℕ} (hk : (k : ℚ) ≤ t) : k ≤ s := by
  have hhalf := (abs_le.1 h.le_half).2
  have hlt : (k : ℚ) < s + 1 := by linarith
  exact Nat.lt_succ_iff.1 (by exact_mod_cast hlt)

theorem le_of_lt (h : IsRounded t s) {k : ℕ} (hk : t < k) : s ≤ k := by
  have hhalf := (abs_le.1 h.le_half).1
  have hlt : (s : ℚ) < k + 1 := by linarith
  exact Nat.lt_succ_iff.1 (by exact_mod_cast hlt)

/-- Half below an even number is where rounding to it begins. -/
theorem lt_iff (h : IsRounded t s) {k : ℕ} (hk : (k + 1) % 2 = 0) :
    s ≤ k ↔ t < k + 1 / 2 := by
  have hhalf := abs_le.1 h.le_half
  constructor
  · intro hs
    have hs' : (s : ℚ) ≤ k := by exact_mod_cast hs
    by_contra hge
    have hge := not_lt.1 hge
    -- then the value lies in the middle, above an odd number
    have heq : (s : ℚ) = k := by linarith
    have habs : |t - s| = 1 / 2 := by
      rw [abs_of_nonneg] <;> linarith
    have heven := h.even habs
    have : s = k := by exact_mod_cast heq
    omega
  · intro ht
    have hlt : (s : ℚ) < k + 1 := by linarith
    exact Nat.lt_succ_iff.1 (by exact_mod_cast hlt)

end IsRounded

/-! ## Exponents -/

namespace Binary64

theorem one_pos : (0 : ℚ) < one := by
  have h : 0 < one := by decide +kernel
  exact Nat.cast_pos.2 h

theorem units_zero (negative : Bool) : (zero negative).units = 0 := Nat.zero_mul _

/-- The exponent that is chosen leaves 53 bits in front of the point, or is the smallest. -/
theorem exponent_spec (num : ℕ) {den : ℕ} (hden : 0 < den) :
    (num : ℚ) / den < 2 ^ 53 * 2 ^ ((num / den).log2 - 52) ∧
      ((num / den).log2 - 52 = 0 ∨
        2 ^ 52 * 2 ^ ((num / den).log2 - 52) ≤ (num : ℚ) / den) := by
  have hden' : (0 : ℚ) < den := by exact_mod_cast hden
  constructor
  · have hlog : num / den < 2 ^ (53 + ((num / den).log2 - 52)) :=
      Nat.lt_of_lt_of_le Nat.lt_log2_self (Nat.pow_le_pow_right (by decide) (by omega))
    rw [← pow_add, div_lt_iff₀ hden']
    exact_mod_cast (Nat.div_lt_iff_lt_mul hden).1 hlog
  · by_cases he : (num / den).log2 - 52 = 0
    · exact .inl he
    · right
      have hne : num / den ≠ 0 := by
        intro h0
        rw [h0] at he
        exact he rfl
      have hlog : 2 ^ (52 + ((num / den).log2 - 52)) ≤ num / den := by
        have hle := Nat.log2_self_le hne
        rwa [show (num / den).log2 = 52 + ((num / den).log2 - 52) by omega] at hle
      rw [← pow_add, le_div_iff₀ hden']
      exact_mod_cast (Nat.le_div_iff_mul_le hden).1 hlog

/-- What has 53 bits at an exponent has no more than 52 at a larger one. -/
theorem mul_pow_le {m k e : ℕ} (hm : m ≤ 2 ^ 53) (h : k < e) : m * 2 ^ k ≤ 2 ^ 52 * 2 ^ e :=
  calc m * 2 ^ k ≤ 2 ^ 53 * 2 ^ k := Nat.mul_le_mul_right _ hm
    _ = 2 ^ 52 * 2 ^ (k + 1) := by ring
    _ ≤ 2 ^ 52 * 2 ^ e := Nat.mul_le_mul_left _ (Nat.pow_le_pow_right two_pos h)

/-- A significand and an exponent in range are the fields of a number, up to a carry. -/
theorem exists_pack? (negative : Bool) {s e : ℕ} (hs : s ≤ 2 ^ 53) (hnormal : e = 0 ∨ 2 ^ 52 ≤ s)
    (hfinite : e < 2045 ∨ e = 2045 ∧ s < 2 ^ 53) :
    ∃ x, pack? negative s e = some x ∧ x.negative = negative ∧ x.units = s * 2 ^ e ∧
      (s % 2 = 0 → x.significand % 2 = 0) := by
  by_cases hlt : s < 2 ^ 53
  · have h : s < 0x20000000000000 ∧ e ≤ 2045 ∧ (e = 0 ∨ 0x10000000000000 ≤ s) := by omega
    refine ⟨⟨negative, s, e, h.1, h.2.1, h.2.2⟩, ?_, rfl, rfl, id⟩
    rw [pack?, dif_pos h]
  · obtain rfl : s = 2 ^ 53 := by omega
    have h : e + 1 ≤ 2045 := by omega
    have heven : 0x10000000000000 % 2 = 0 := by decide
    refine ⟨⟨negative, 0x10000000000000, e + 1, by decide, h, .inr (Nat.le_refl _)⟩, ?_, rfl, ?_,
      fun _ => heven⟩
    · rw [pack?, dif_neg (by simp), dif_pos ⟨rfl, h⟩]
    · show 2 ^ 52 * 2 ^ (e + 1) = 2 ^ 53 * 2 ^ e
      ring

theorem pack?_eq_none (negative : Bool) {s e : ℕ}
    (hinfinite : 2045 < e ∨ e = 2045 ∧ 2 ^ 53 ≤ s) : pack? negative s e = none := by
  rw [pack?, dif_neg (by omega), dif_neg (by omega)]

/-! ## Ratios -/

variable {r : ℚ} {s e : ℕ}

/-- Rounding at an exponent gets at least as near as any number of the format: the larger ones are
whole at this exponent, and between the value and the smaller ones there is a whole one. -/
theorem le_units (hround : IsRounded (r / 2 ^ e) s) (hbig : e = 0 ∨ 2 ^ 52 * 2 ^ e ≤ r)
    (y : Binary64) :
    |r - s * 2 ^ e| ≤ |r - y.units| ∧
      (|r - s * 2 ^ e| = |r - y.units| → (y.units : ℚ) = s * 2 ^ e ∨ s % 2 = 0) := by
  have hpow : (0 : ℚ) < 2 ^ e := by positivity
  have hscale : ∀ v : ℚ, |r - v * 2 ^ e| = |r / 2 ^ e - v| * 2 ^ e := by
    intro v
    rw [← abs_of_pos hpow, ← abs_mul, abs_of_pos hpow, sub_mul, div_mul_cancel₀ _ hpow.ne']
  by_cases he : e ≤ y.exponent
  · obtain ⟨k, hk⟩ := Nat.exists_eq_add_of_le he
    have hunits : (y.units : ℚ) = (y.significand * 2 ^ k : ℕ) * 2 ^ e := by
      have h : y.units = y.significand * 2 ^ k * 2 ^ e := by
        rw [units, hk, Nat.pow_eq, pow_add]
        ring
      exact_mod_cast h
    obtain ⟨hle, heven⟩ := hround.le (y.significand * 2 ^ k : ℕ)
    rw [Int.cast_natCast] at hle heven
    rw [hunits, hscale, hscale]
    refine ⟨mul_le_mul_of_nonneg_right hle hpow.le, fun heq => ?_⟩
    rcases heven (mul_right_cancel₀ hpow.ne' heq) with h | h
    · left
      rw [Int.natCast_inj.1 h]
    · exact .inr h
  · have hbig := hbig.resolve_left (by omega)
    have hunits : (y.units : ℚ) < 2 ^ 52 * 2 ^ e := by
      have h : y.units < 2 ^ 52 * 2 ^ e :=
        calc y.units < 2 ^ 53 * 2 ^ y.exponent :=
              Nat.mul_lt_mul_of_pos_right y.significand_lt (natPow_pos two_pos _)
          _ ≤ 2 ^ 52 * 2 ^ e := mul_pow_le (Nat.le_refl _) (Nat.not_le.1 he)
      exact_mod_cast h
    have hle := (hround.le (2 ^ 52 : ℕ)).1
    have hnear : |r - s * 2 ^ e| ≤ |r - 2 ^ 52 * 2 ^ e| := by
      rw [hscale, hscale]
      refine mul_le_mul_of_nonneg_right ?_ hpow.le
      exact_mod_cast hle
    rw [abs_of_nonneg (a := r - 2 ^ 52 * 2 ^ e) (by linarith)] at hnear
    have hlt : |r - s * 2 ^ e| < |r - y.units| := by
      rw [abs_of_nonneg (a := r - y.units) (by linarith)]
      linarith
    exact ⟨hlt.le, fun heq => absurd heq hlt.ne⟩

theorem dist_same (negative : Bool) (r u : ℚ) :
    |sign negative * (r / one) - sign negative * (u / one)| = |r - u| / one := by
  rw [← mul_sub, abs_mul, abs_sign, one_mul, ← sub_div, abs_div, abs_of_pos one_pos]

theorem dist_other {negative other : Bool} (hne : other ≠ negative) (r u : ℚ) :
    |sign negative * (r / one) - sign other * (u / one)| = |r + u| / one := by
  have hsign : sign other = -sign negative := by
    cases negative <;> cases other <;> simp [sign] at hne ⊢
  have h := dist_same negative r (-u)
  rw [sub_neg_eq_add, neg_div, mul_neg, ← neg_mul, ← hsign] at h
  exact h

/-- Nothing on the other side of zero is nearer, because zero is not. -/
theorem le_neg_units (hr : 0 ≤ r) (hround : IsRounded (r / 2 ^ e) s)
    (hbig : e = 0 ∨ 2 ^ 52 * 2 ^ e ≤ r) {u : ℚ} (hu : 0 ≤ u) :
    |r - s * 2 ^ e| ≤ |r + u| ∧
      (|r - s * 2 ^ e| = |r + u| → u = 0 ∧ ((0 : ℚ) = s * 2 ^ e ∨ s % 2 = 0)) := by
  obtain ⟨hle, heven⟩ := le_units hround hbig (zero false)
  rw [units_zero, Nat.cast_zero, sub_zero, abs_of_nonneg hr] at hle heven
  rw [abs_of_nonneg (a := r + u) (by linarith)]
  refine ⟨by linarith, fun heq => ⟨by linarith, heven (by linarith)⟩⟩

/-- A number of the rounded size is nearest to the value with its sign. -/
theorem isNearest_of_isRounded {x : Binary64} (hr : 0 ≤ r) (hround : IsRounded (r / 2 ^ e) s)
    (hbig : e = 0 ∨ 2 ^ 52 * 2 ^ e ≤ r) (hunits : x.units = s * 2 ^ e)
    (heven : s % 2 = 0 → x.significand % 2 = 0) :
    x.IsNearest (sign x.negative * (r / one)) := by
  have hx : (x.units : ℚ) = s * 2 ^ e := by exact_mod_cast hunits
  have hother := fun y : Binary64 => le_neg_units hr hround hbig (Nat.cast_nonneg y.units)
  constructor
  · intro y
    rw [toRat, toRat, dist_same, hx]
    by_cases hsign : y.negative = x.negative
    · rw [hsign, dist_same]
      exact div_le_div_of_nonneg_right (le_units hround hbig y).1 one_pos.le
    · rw [dist_other hsign]
      exact div_le_div_of_nonneg_right (hother y).1 one_pos.le
  · intro y heq
    rw [toRat, toRat, dist_same, hx] at heq
    by_cases hsign : y.negative = x.negative
    · rw [hsign, dist_same, div_left_inj' one_pos.ne'] at heq
      rcases (le_units hround hbig y).2 heq with h | h
      · left
        rw [toRat, toRat, hsign, h, hx]
      · exact .inr (heven h)
    · rw [dist_other hsign, div_left_inj' one_pos.ne'] at heq
      obtain ⟨hy, h | h⟩ := (hother y).2 heq
      · left
        rw [toRat, toRat, hx, ← h, hy, zero_div, mul_zero, mul_zero]
      · exact .inr (heven h)

/-! ## Uniqueness -/

/-- Between two sizes with even significands there is a third, whichever sign is wanted. -/
theorem exists_units_between {x y : Binary64} (hx : x.significand % 2 = 0)
    (hy : y.significand % 2 = 0) (h : x.units < y.units) (negative : Bool) :
    ∃ z : Binary64, z.negative = negative ∧ x.units < z.units ∧ z.units < y.units := by
  have hlt := x.significand_lt
  have hnormal : x.exponent = 0 ∨ 0x10000000000000 ≤ x.significand + 1 :=
    x.normal.imp_right fun hn => hn.trans (Nat.le_succ _)
  let z : Binary64 :=
    ⟨negative, x.significand + 1, x.exponent, by omega, x.exponent_le, hnormal⟩
  have hxpow : 0 < Nat.pow 2 x.exponent := natPow_pos two_pos _
  refine ⟨z, rfl, Nat.mul_lt_mul_of_pos_right (Nat.lt_succ_self _) hxpow, ?_⟩
  show (x.significand + 1) * 2 ^ x.exponent < y.significand * 2 ^ y.exponent
  have hunits : x.significand * 2 ^ x.exponent < y.significand * 2 ^ y.exponent := h
  rcases lt_trichotomy x.exponent y.exponent with he | he | he
  · have hy' := y.normal.resolve_left (by omega)
    calc (x.significand + 1) * 2 ^ x.exponent
        < 2 ^ 53 * 2 ^ x.exponent := Nat.mul_lt_mul_of_pos_right (by omega) hxpow
      _ ≤ 2 ^ 52 * 2 ^ y.exponent := mul_pow_le (Nat.le_refl _) he
      _ ≤ y.significand * 2 ^ y.exponent := Nat.mul_le_mul_right _ hy'
  · -- two even significands are two apart
    rw [he] at hunits hxpow ⊢
    have hsignificand := Nat.lt_of_mul_lt_mul_right hunits
    exact Nat.mul_lt_mul_of_pos_right (by omega) hxpow
  · have hx' := x.normal.resolve_left (by omega)
    have hge : y.significand * 2 ^ y.exponent ≤ x.significand * 2 ^ x.exponent :=
      calc y.significand * 2 ^ y.exponent
          ≤ 2 ^ 52 * 2 ^ x.exponent := mul_pow_le y.significand_lt.le he
        _ ≤ x.significand * 2 ^ x.exponent := Nat.mul_le_mul_right _ hx'
    exact absurd hunits (Nat.not_lt.2 hge)

/-- The product says that `z` lies between `x` and `y` without saying which of them is less. -/
theorem mul_pos_of_units {x y z : Binary64} {negative : Bool}
    (hx : x.toRat = sign negative * (x.units / one))
    (hy : y.toRat = sign negative * (y.units / one)) (hz : z.negative = negative)
    (h : x.units < z.units ∧ z.units < y.units ∨ y.units < z.units ∧ z.units < x.units) :
    0 < (z.toRat - x.toRat) * (y.toRat - z.toRat) := by
  have hsquare : sign negative * sign negative = 1 := by cases negative <;> simp [sign]
  have hone : (0 : ℚ) < one * one := mul_pos one_pos one_pos
  have hunits : (0 : ℚ) < (z.units - x.units) * (y.units - z.units) := by
    rcases h with ⟨h1, h2⟩ | ⟨h1, h2⟩
    · exact mul_pos (sub_pos.2 (Nat.cast_lt.2 h1)) (sub_pos.2 (Nat.cast_lt.2 h2))
    · exact mul_pos_of_neg_of_neg (sub_neg.2 (Nat.cast_lt.2 h2)) (sub_neg.2 (Nat.cast_lt.2 h1))
  have heq : (z.toRat - x.toRat) * (y.toRat - z.toRat) = sign negative * sign negative *
      ((z.units - x.units) * (y.units - z.units) / (one * one)) := by
    rw [hx, hy, toRat, hz, ← mul_sub, ← mul_sub, ← sub_div, ← sub_div, mul_mul_mul_comm,
      div_mul_div_comm]
  rw [heq, hsquare, one_mul]
  exact div_pos hunits hone

/-- Between two values with even significands there is a third. -/
theorem exists_between {x y : Binary64} (hx : x.significand % 2 = 0) (hy : y.significand % 2 = 0)
    (hne : x.toRat ≠ y.toRat) :
    ∃ z : Binary64, 0 < (z.toRat - x.toRat) * (y.toRat - z.toRat) := by
  have hzero : ∀ {u : Binary64}, u.units = 0 → ∀ negative,
      u.toRat = sign negative * (u.units / one) := by
    intro u hu negative
    rw [toRat, hu, Nat.cast_zero, zero_div, mul_zero, mul_zero]
  have hside : ∀ negative, x.toRat = sign negative * (x.units / one) →
      y.toRat = sign negative * (y.units / one) →
      ∃ z : Binary64, 0 < (z.toRat - x.toRat) * (y.toRat - z.toRat) := by
    intro negative hx' hy'
    rcases lt_trichotomy x.units y.units with h | h | h
    · obtain ⟨z, hz, h1, h2⟩ := exists_units_between hx hy h negative
      exact ⟨z, mul_pos_of_units hx' hy' hz (.inl ⟨h1, h2⟩)⟩
    · exact absurd (by rw [hx', hy', h]) hne
    · obtain ⟨z, hz, h1, h2⟩ := exists_units_between hy hx h negative
      exact ⟨z, mul_pos_of_units hx' hy' hz (.inr ⟨h1, h2⟩)⟩
  by_cases hsign : x.negative = y.negative
  · exact hside y.negative (by rw [toRat, hsign]) rfl
  · by_cases hx0 : x.units = 0
    · exact hside y.negative (hzero hx0 _) rfl
    · by_cases hy0 : y.units = 0
      · exact hside x.negative rfl (hzero hy0 _)
      · -- on different sides of zero there is zero between them
        have hu : (0 : ℚ) < x.units / one := div_pos (Nat.cast_pos.2 (by omega)) one_pos
        have hv : (0 : ℚ) < y.units / one := div_pos (Nat.cast_pos.2 (by omega)) one_pos
        have hproduct : x.toRat * y.toRat < 0 := by
          have hopposite : sign x.negative * sign y.negative = -1 := by
            revert hsign
            cases x.negative <;> cases y.negative <;> simp [sign]
          rw [toRat, toRat, mul_mul_mul_comm, hopposite, neg_one_mul]
          exact neg_neg_of_pos (mul_pos hu hv)
        have hmiddle : (zero false).toRat = 0 := by
          rw [toRat, units_zero, Nat.cast_zero, zero_div, mul_zero]
        refine ⟨zero false, ?_⟩
        rw [hmiddle, zero_sub, sub_zero, neg_mul]
        exact neg_pos.2 hproduct

/-- There is one nearest value. -/
theorem IsNearest.toRat_eq {q : ℚ} {x y : Binary64} (hx : x.IsNearest q) (hy : y.IsNearest q) :
    x.toRat = y.toRat := by
  have hdist : |q - x.toRat| = |q - y.toRat| := le_antisymm (hx.le y) (hy.le x)
  by_contra hne
  have hxeven := (hx.even y hdist).resolve_left (Ne.symm hne)
  have hyeven := (hy.even x hdist.symm).resolve_left hne
  -- then the value lies in the middle, and what is between the two is nearer
  obtain ⟨z, hz⟩ := exists_between hxeven hyeven hne
  have hmiddle : q - x.toRat = -(q - y.toRat) :=
    (abs_eq_abs.1 hdist).resolve_left fun h => hne (sub_right_injective h)
  have hsquares : (q - z.toRat) ^ 2 < (q - x.toRat) ^ 2 := by
    have hsum : 2 * q = x.toRat + y.toRat := by linarith
    have hexpand : (q - x.toRat) ^ 2 - (q - z.toRat) ^ 2 =
        (z.toRat - x.toRat) * (2 * q - x.toRat - z.toRat) := by ring
    rw [hsum, add_sub_cancel_left] at hexpand
    linarith
  exact absurd (hx.le z) (not_le.2 (sq_lt_sq.1 hsquares))

/-- The sign and the size are all there is to a number. -/
theorem eq_of_units {x y : Binary64} (hsign : x.negative = y.negative) (h : x.units = y.units) :
    x = y := by
  have hx := ofUnits?_units x
  rw [hsign, h, ofUnits?_units y] at hx
  exact (Option.some.inj hx).symm

theorem significand_eq_zero {x : Binary64} (h : x.units = 0) : x.significand = 0 :=
  (Nat.mul_eq_zero.1 h).resolve_right (natPow_pos (by decide) _).ne'

/-- Numbers of one value are equal, or they are the two zeros. -/
theorem same_of_toRat_eq {x y : Binary64} (h : x.toRat = y.toRat) : x.same y = true := by
  have hsize : (x.units : ℚ) / one = y.units / one := by
    have habs := congrArg abs h
    have hpos : ∀ n : ℕ, (0 : ℚ) ≤ n / one := fun n => div_nonneg (Nat.cast_nonneg n) one_pos.le
    rwa [toRat, toRat, abs_mul, abs_mul, abs_sign, abs_sign, one_mul, one_mul,
      abs_of_nonneg (hpos _), abs_of_nonneg (hpos _)] at habs
  have hunits : x.units = y.units := by
    rw [div_left_inj' one_pos.ne'] at hsize
    exact_mod_cast hsize
  rw [same, Bool.or_eq_true, Bool.and_eq_true, beq_iff_eq, beq_iff_eq, beq_iff_eq]
  by_cases hzero : x.units = 0
  · right
    exact ⟨significand_eq_zero hzero, significand_eq_zero (hunits ▸ hzero)⟩
  · left
    -- numbers of different signs have one value only if it is zero
    have hne : (x.units : ℚ) / one ≠ 0 := div_ne_zero (Nat.cast_ne_zero.2 hzero) one_pos.ne'
    rw [toRat, toRat, ← hsize] at h
    have hsign : sign x.negative = sign y.negative := mul_right_cancel₀ hne h
    apply eq_of_units _ hunits
    revert hsign
    cases x.negative <;> cases y.negative <;> norm_num [sign]

theorem same_iff_eq {x y : Binary64} (hsign : x.negative = y.negative) :
    x.same y = true ↔ x = y := by
  rw [same, Bool.or_eq_true, Bool.and_eq_true, beq_iff_eq, beq_iff_eq, beq_iff_eq]
  refine ⟨?_, .inl⟩
  rintro (rfl | ⟨hx, hy⟩)
  · rfl
  · exact eq_of_units hsign (by rw [units, units, hx, hy, Nat.zero_mul, Nat.zero_mul])

/-- A number is nearest to its own value. -/
theorem isNearest_self (x : Binary64) : x.IsNearest x.toRat where
  le y := by
    rw [sub_self, abs_zero]
    exact abs_nonneg _
  even y h := by
    rw [sub_self, abs_zero] at h
    left
    exact (sub_eq_zero.1 (abs_eq_zero.1 h.symm)).symm

/-! ## Limits -/

theorem cast_natPow (n : ℕ) : ((Nat.pow 2 n : ℕ) : ℚ) = 2 ^ n := by
  rw [Nat.pow_eq, Nat.cast_pow, Nat.cast_ofNat]

theorem overflow_mul_one : overflow * one = (2 ^ 54 - 1) * 2 ^ 2044 := by
  have hone : (one : ℚ) = 2 ^ 1074 := by
    unfold one
    generalize 1074 = k
    exact cast_natPow k
  rw [hone, overflow, mul_assoc, ← pow_add]

/-- Whether a rounded value is finite can be seen from its exponent and significand. -/
theorem lt_overflow_iff (hlt : r < 2 ^ 53 * 2 ^ e) (hround : IsRounded (r / 2 ^ e) s)
    (hbig : e = 0 ∨ 2 ^ 52 * 2 ^ e ≤ r) :
    r < overflow * one ↔ e < 2045 ∨ e = 2045 ∧ s < 2 ^ 53 := by
  rw [overflow_mul_one]
  have htop : (0 : ℚ) < 2 ^ 2044 := by positivity
  rcases lt_trichotomy e 2045 with he | rfl | he
  · have hpow : (2 : ℚ) ^ e ≤ 2 ^ 2044 := pow_le_pow_right₀ (by norm_num) (by omega)
    refine ⟨fun _ => .inl he, fun _ => ?_⟩
    calc r < 2 ^ 53 * 2 ^ e := hlt
      _ ≤ 2 ^ 53 * 2 ^ 2044 := by gcongr
      _ ≤ (2 ^ 54 - 1) * 2 ^ 2044 := by
        refine mul_le_mul_of_nonneg_right ?_ htop.le
        norm_num
  · have hsignificand := hround.lt_iff (k := 2 ^ 53 - 1) (by norm_num)
    have hhalf : r / 2 ^ 2045 < ((2 ^ 53 - 1 : ℕ) : ℚ) + 1 / 2 ↔ r < (2 ^ 54 - 1) * 2 ^ 2044 := by
      rw [div_lt_iff₀ (by positivity), pow_succ 2 2044, mul_comm (2 ^ 2044) 2, ← mul_assoc]
      norm_num
    rw [← hhalf, ← hsignificand]
    omega
  · have hpow : (2 : ℚ) ^ 2046 ≤ 2 ^ e := pow_le_pow_right₀ (by norm_num) he
    have hge : (2 ^ 54 - 1) * 2 ^ 2044 ≤ r :=
      calc (2 ^ 54 - 1) * 2 ^ 2044 ≤ 2 ^ 54 * (2 : ℚ) ^ 2044 := by
            refine mul_le_mul_of_nonneg_right ?_ htop.le
            norm_num
        _ = 2 ^ 52 * 2 ^ 2046 := by rw [← pow_add, ← pow_add]
        _ ≤ 2 ^ 52 * 2 ^ e := by gcongr
        _ ≤ r := hbig.resolve_left (by omega)
    refine ⟨fun h => absurd h (not_lt.2 hge), fun h => ?_⟩
    omega

/-- A ratio is rounded to a whole number at an exponent that leaves 53 bits in front of the point. Below
the limit there is a number of that size, and from the limit on there is none. -/
theorem ofUnits?_rounded (negative : Bool) (num : ℕ) {den : ℕ} (hden : 0 < den) :
    ∃ s e : ℕ, IsRounded ((num : ℚ) / den / 2 ^ e) s ∧
      (e = 0 ∨ 2 ^ 52 * 2 ^ e ≤ (num : ℚ) / den) ∧
      if (num : ℚ) / den < overflow * one then
        ∃ x, ofUnits? negative num den = some x ∧ x.negative = negative ∧ x.units = s * 2 ^ e ∧
          (s % 2 = 0 → x.significand % 2 = 0)
      else ofUnits? negative num den = none := by
  obtain ⟨hlt, hbig⟩ := exponent_spec num hden
  let e := (num / den).log2 - 52
  have hpow : (0 : ℚ) < 2 ^ e := by positivity
  have hround : IsRounded ((num : ℚ) / den / 2 ^ e) (roundHalfEven num (den * Nat.pow 2 e)) := by
    have h := isRounded_roundHalfEven num (Nat.mul_pos hden (natPow_pos two_pos e))
    rwa [Nat.cast_mul, cast_natPow, ← div_div] at h
  have hle : roundHalfEven num (den * Nat.pow 2 e) ≤ 2 ^ 53 := by
    refine hround.le_of_lt ?_
    rw [div_lt_iff₀ hpow]
    exact_mod_cast hlt
  have hnormal : e = 0 ∨ 2 ^ 52 ≤ roundHalfEven num (den * Nat.pow 2 e) := by
    refine hbig.imp_right fun h => hround.le_of_le ?_
    rw [le_div_iff₀ hpow]
    exact_mod_cast h
  have hfinite : (num : ℚ) / den < overflow * one ↔
      e < 2045 ∨ e = 2045 ∧ roundHalfEven num (den * Nat.pow 2 e) < 2 ^ 53 :=
    lt_overflow_iff hlt hround hbig
  refine ⟨_, e, hround, hbig, ?_⟩
  split
  · next h => exact exists_pack? negative hle hnormal (hfinite.1 h)
  · next h =>
    have hinfinite : 2045 < e ∨ e = 2045 ∧ 2 ^ 53 ≤ roundHalfEven num (den * Nat.pow 2 e) := by
      rw [hfinite] at h
      omega
    exact pack?_eq_none negative hinfinite

/-- A ratio below the limit is rounded to the nearest number, and one from the limit on is
infinite. -/
theorem ofUnits?_spec (negative : Bool) (num : ℕ) {den : ℕ} (hden : 0 < den) :
    if (num : ℚ) / den < overflow * one then
      ∃ x, ofUnits? negative num den = some x ∧ x.negative = negative ∧
        x.IsNearest (sign negative * (num / den / one))
    else ofUnits? negative num den = none := by
  obtain ⟨s, e, hround, hbig, h⟩ := ofUnits?_rounded negative num hden
  split at h
  · next hfinite =>
    obtain ⟨x, hx, hneg, hunits, heven⟩ := h
    rw [if_pos hfinite]
    refine ⟨x, hx, hneg, ?_⟩
    rw [← hneg]
    exact isNearest_of_isRounded (by positivity) hround hbig hunits heven
  · next hinfinite => rwa [if_neg hinfinite]

end Binary64

/-! ## Decimals -/

theorem pow_digitCount_le {n : ℕ} (hn : n ≠ 0) : 10 ^ (digitCount n - 1) ≤ n := by
  by_cases h : digitCount n ≤ 1
  · rw [Nat.sub_eq_zero_of_le h, pow_zero]
    exact Nat.one_le_iff_ne_zero.2 hn
  · have hle := (digitCount_le_iff (n := n) (k := digitCount n - 1) (by omega)).not.1 (by omega)
    exact Nat.not_lt.1 hle

theorem digitCount_pos (n : ℕ) : 0 < digitCount n :=
  List.length_pos_iff.2 Nat.toDigits_ne_nil

theorem lt_pow_digitCount (n : ℕ) : n < 10 ^ digitCount n :=
  (digitCount_le_iff (digitCount_pos n)).1 (Nat.le_refl _)

namespace Decimal

/-- The size of a decimal. -/
def magnitude (d : Decimal) : ℚ := d.digits * 10 ^ d.exponent

theorem magnitude_nonneg (d : Decimal) : 0 ≤ d.magnitude := by
  unfold magnitude
  positivity

theorem abs_toRat (d : Decimal) : |d.toRat| = d.magnitude := by
  rw [toRat, abs_mul, abs_sign, one_mul, ← magnitude, abs_of_nonneg d.magnitude_nonneg]

/-- The number of digits and the exponent give the power of ten just above a decimal. -/
theorem magnitude_bounds {d : Decimal} (hd : d.digits ≠ 0) :
    10 ^ (digitCount d.digits + d.exponent - 1) ≤ d.magnitude ∧
      d.magnitude < (10 : ℚ) ^ (digitCount d.digits + d.exponent) := by
  have hten : (0 : ℚ) < 10 ^ d.exponent := by positivity
  have hpos := digitCount_pos d.digits
  have hlow : ((10 ^ (digitCount d.digits - 1) : ℕ) : ℚ) ≤ d.digits :=
    Nat.cast_le.2 (pow_digitCount_le hd)
  have hhigh : (d.digits : ℚ) < (10 ^ digitCount d.digits : ℕ) :=
    Nat.cast_lt.2 (lt_pow_digitCount d.digits)
  constructor
  · have hsplit : (digitCount d.digits : ℤ) + d.exponent - 1 =
        (digitCount d.digits - 1 : ℕ) + d.exponent := by omega
    rw [hsplit, zpow_add₀ (by norm_num), zpow_natCast]
    refine mul_le_mul_of_nonneg_right ?_ hten.le
    exact_mod_cast hlow
  · rw [zpow_add₀ (by norm_num), zpow_natCast]
    refine mul_lt_mul_of_pos_right ?_ hten
    exact_mod_cast hhigh

end Decimal

namespace Binary64

theorem one_lt_overflow : 1 < overflow := by
  have hpow : (1 : ℚ) ≤ 2 ^ 970 := one_le_pow₀ (by norm_num)
  have hfactor : (1 : ℚ) < 2 ^ 54 - 1 := by norm_num
  rw [overflow]
  exact one_lt_mul_of_lt_of_le hfactor hpow

theorem overflow_le : overflow ≤ 10 ^ (309 : ℤ) := by
  have h : 2 ^ 1024 ≤ 10 ^ 309 := by decide +kernel
  have hcast : ((2 ^ 1024 : ℕ) : ℚ) ≤ (10 ^ 309 : ℕ) := Nat.cast_le.2 h
  rw [Nat.cast_pow, Nat.cast_pow, Nat.cast_ofNat, Nat.cast_ofNat] at hcast
  calc overflow ≤ 2 ^ 54 * 2 ^ 970 := by
        refine mul_le_mul_of_nonneg_right ?_ (by positivity)
        norm_num
    _ = 2 ^ 1024 := by rw [← pow_add]
    _ ≤ 10 ^ 309 := hcast
    _ = 10 ^ (309 : ℤ) := (zpow_natCast 10 309).symm

/-- The smallest number is more than twice as large as what counts as zero. -/
theorem one_lt : 10 ^ (-324 : ℤ) * (one : ℚ) < 1 / 2 := by
  have h : 2 * one < 10 ^ 324 := by decide +kernel
  have hcast : ((2 * one : ℕ) : ℚ) < (10 ^ 324 : ℕ) := Nat.cast_lt.2 h
  rw [Nat.cast_pow, Nat.cast_mul, Nat.cast_ofNat, Nat.cast_ofNat] at hcast
  rw [zpow_neg, ← div_eq_inv_mul, div_lt_div_iff₀ (by positivity) two_pos, one_mul, mul_comm]
  exact hcast.trans_eq (zpow_natCast 10 324).symm

theorem isNearest_zero {q : ℚ} {negative : Bool} {m : ℚ} (hq : q = sign negative * m)
    (hm : 0 ≤ m) (hsmall : m * one < 1 / 2) : (zero negative).IsNearest q := by
  have hr : (0 : ℚ) ≤ m * one := mul_nonneg hm one_pos.le
  have habs : |m * one / 2 ^ 0 - (0 : ℕ)| = m * one := by
    rw [pow_zero, div_one, Nat.cast_zero, sub_zero, abs_of_nonneg hr]
  have hround : IsRounded (m * one / 2 ^ 0) 0 :=
    ⟨by rw [habs]; exact hsmall.le, fun _ => rfl⟩
  have h := isNearest_of_isRounded (x := zero negative) hr hround (.inl rfl) rfl fun _ => rfl
  rw [mul_div_cancel_right₀ _ one_pos.ne'] at h
  rw [hq]
  exact h

/-- Reading a ratio that has the value of a decimal. -/
theorem ofUnits?_magnitude (d : Decimal) (num : ℕ) {den : ℕ} (hden : 0 < den)
    (hvalue : (num : ℚ) / den = d.magnitude * one) :
    if |d.toRat| < overflow then
      ∃ x, ofUnits? d.negative num den = some x ∧ x.negative = d.negative ∧ x.IsNearest d.toRat
    else ofUnits? d.negative num den = none := by
  have h := ofUnits?_spec d.negative num hden
  rw [hvalue, mul_div_cancel_right₀ _ one_pos.ne'] at h
  simp only [mul_lt_mul_iff_left₀ one_pos] at h
  rw [Decimal.abs_toRat]
  exact h

/-- Reading a decimal is correct rounding. -/
theorem ofDecimal?_spec (d : Decimal) :
    if |d.toRat| < overflow then
      ∃ x, ofDecimal? d = some x ∧ x.negative = d.negative ∧ x.IsNearest d.toRat
    else ofDecimal? d = none := by
  rw [Decimal.abs_toRat]
  by_cases hd : d.digits = 0
  · have hm : d.magnitude = 0 := by rw [Decimal.magnitude, hd, Nat.cast_zero, zero_mul]
    rw [if_pos (by rw [hm]; exact zero_lt_one.trans one_lt_overflow)]
    refine ⟨zero d.negative, by rw [ofDecimal?, if_pos hd], rfl, ?_⟩
    have hhalf : d.magnitude * one < 1 / 2 := by
      rw [hm, zero_mul]
      exact one_half_pos
    exact isNearest_zero rfl d.magnitude_nonneg hhalf
  obtain ⟨hlow, hhigh⟩ := Decimal.magnitude_bounds hd
  by_cases htop : 309 < (digitCount d.digits : ℤ) + d.exponent
  · have hge : overflow ≤ d.magnitude := by
      refine overflow_le.trans (le_trans ?_ hlow)
      exact zpow_le_zpow_right₀ (by norm_num) (by omega)
    rw [if_neg (not_lt.2 hge)]
    simp only [ofDecimal?, hd, htop, if_true, if_false]
  by_cases hbottom : (digitCount d.digits : ℤ) + d.exponent ≤ -324
  · have hsmall : d.magnitude < 10 ^ (-324 : ℤ) :=
      hhigh.trans_le (zpow_le_zpow_right₀ (by norm_num) hbottom)
    have hone : (10 : ℚ) ^ (-324 : ℤ) ≤ 1 := zpow_le_one_of_nonpos₀ (by norm_num) (by norm_num)
    have hhalf : d.magnitude * one < 1 / 2 :=
      (mul_lt_mul_of_pos_right hsmall one_pos).trans one_lt
    rw [if_pos ((hsmall.trans_le hone).trans one_lt_overflow)]
    refine ⟨zero d.negative, ?_, rfl, isNearest_zero rfl d.magnitude_nonneg hhalf⟩
    simp only [ofDecimal?, hd, htop, hbottom, if_true, if_false]
  rw [← Decimal.abs_toRat]
  by_cases hexp : 0 ≤ d.exponent
  · have hread : ofDecimal? d =
        ofUnits? d.negative (d.digits * Nat.pow 10 d.exponent.toNat * one) 1 := by
      simp only [ofDecimal?, hd, htop, hbottom, hexp, if_true, if_false]
    rw [hread]
    apply ofUnits?_magnitude d _ Nat.one_pos
    have hpow : (10 : ℚ) ^ d.exponent = 10 ^ d.exponent.toNat := by
      rw [← zpow_natCast, Int.toNat_of_nonneg hexp]
    rw [Nat.cast_one, div_one, Decimal.magnitude, hpow, Nat.pow_eq, Nat.cast_mul, Nat.cast_mul,
      Nat.cast_pow, Nat.cast_ofNat]
  · have hread : ofDecimal? d =
        ofUnits? d.negative (d.digits * one) (Nat.pow 10 (-d.exponent).toNat) := by
      simp only [ofDecimal?, hd, htop, hbottom, hexp, if_false]
    rw [hread]
    apply ofUnits?_magnitude d _ (natPow_pos (by norm_num) _)
    have hpow : (10 : ℚ) ^ d.exponent = (10 ^ (-d.exponent).toNat)⁻¹ := by
      rw [← zpow_natCast, Int.toNat_of_nonneg (by omega), zpow_neg, inv_inv]
    rw [Decimal.magnitude, hpow, Nat.pow_eq, Nat.cast_mul, Nat.cast_pow, Nat.cast_ofNat]
    ring

end Binary64

end Screening.Number
