import Screening.Json.Float
import Screening.Proofs.Number.Arithmetic
import Screening.Proofs.Number.Layout

/-!
# Readings of floats

What can be said of the ways to read a float. Correct rounding determines the reading. The best effort
never misses a value for being too large, unless the digits stand for one that is larger than all but
the three largest numbers. The rounding that it does on the way is what these three are left out for.
Of few digits it rounds only once, and so correctly.
-/

namespace Screening.Json.FloatReading

open Number

/-! ## Correct rounding -/

/-- Of digits the nearest number is made, which is none exactly if that is infinite. -/
def CorrectlyRounded (floats : FloatReading) : Prop :=
  ∀ negative whole fraction exponent, (∀ c ∈ whole ++ fraction, c.isDigit = true) →
    let value := (Decimal.ofParts negative whole fraction (exponent.getD 0)).toRat
    if |value| < Binary64.overflow then
      ∃ x, floats negative whole fraction exponent = some x ∧ x.negative = negative ∧
        x.IsNearest value
    else floats negative whole fraction exponent = none

theorem correctlyRounded_nearest : nearest.CorrectlyRounded :=
  fun _ _ _ _ _ => Binary64.ofDecimal?_spec _

/-- There is one correct rounding. -/
theorem CorrectlyRounded.eq_nearest {floats : FloatReading} (h : floats.CorrectlyRounded)
    {negative : Bool} {whole fraction : List Char} {exponent : Option Int}
    (hdigits : ∀ c ∈ whole ++ fraction, c.isDigit = true) :
    floats negative whole fraction exponent = nearest negative whole fraction exponent := by
  have hleft := h negative whole fraction exponent hdigits
  have hright := correctlyRounded_nearest negative whole fraction exponent hdigits
  simp only at hleft hright
  split at hleft
  · next hfinite =>
    rw [if_pos hfinite] at hright
    obtain ⟨x, hx, hxsign, hxnearest⟩ := hleft
    obtain ⟨y, hy, hysign, hynearest⟩ := hright
    have hsame := Binary64.same_of_toRat_eq (hxnearest.toRat_eq hynearest)
    rw [hx, hy, (Binary64.same_iff_eq (hxsign.trans hysign.symm)).1 hsame]
  · next hinfinite =>
    rw [if_neg hinfinite] at hright
    rw [hleft, hright]

/-! ## Digits -/

/-- Digits are gathered from the front until the next one would not fit in 64 bits. -/
theorem gather_spec {cs : List Char} (hcs : ∀ c ∈ cs, c.isDigit = true) {n : ℕ}
    (hn : n < 2 ^ 64) :
    ∃ taken rest, cs = taken ++ rest ∧ (gather n cs) = (Nat.ofDigitChars 10 taken n, rest) ∧
      Nat.ofDigitChars 10 taken n < 2 ^ 64 ∧
      (rest ≠ [] → 2 ^ 64 ≤ 10 * Nat.ofDigitChars 10 taken n + 9) := by
  induction cs generalizing n with
  | nil => exact ⟨[], [], rfl, rfl, hn, fun h => absurd rfl h⟩
  | cons c cs ih =>
    obtain ⟨hc, hcs⟩ := List.forall_mem_cons.1 hcs
    simp only [gather]
    split
    · next hfits =>
      obtain ⟨taken, rest, rfl, hgather, hlt, hfull⟩ := ih hcs hfits
      exact ⟨c :: taken, rest, rfl, by rw [hgather, Nat.ofDigitChars_cons], hlt, hfull⟩
    · next hfull =>
      have hdigit := digit_le hc
      refine ⟨[], c :: cs, rfl, rfl, hn, fun _ => ?_⟩
      show 2 ^ 64 ≤ 10 * n + 9
      omega

theorem replaced_le {a v x y z total : ℕ} (h : a * x * y * z + v * z ≤ total) (hv : v ≤ y)
    (hlarge : x = 1 ∨ 10 ^ 18 ≤ a) :
    10 ^ 18 * ((a * y + v) * (x * z)) ≤ (10 ^ 18 + 1) * total := by
  rcases hlarge with rfl | ha
  · calc 10 ^ 18 * ((a * y + v) * (1 * z)) = 10 ^ 18 * (a * 1 * y * z + v * z) := by ring
      _ ≤ 10 ^ 18 * total := Nat.mul_le_mul_left _ h
      _ ≤ (10 ^ 18 + 1) * total := Nat.mul_le_mul_right _ (by norm_num)
  · have hsmall : 10 ^ 18 * (v * (x * z)) ≤ a * x * y * z :=
      calc 10 ^ 18 * (v * (x * z)) ≤ a * (y * (x * z)) :=
            Nat.mul_le_mul ha (Nat.mul_le_mul_right _ hv)
        _ = a * x * y * z := by ring
    calc 10 ^ 18 * ((a * y + v) * (x * z))
        = 10 ^ 18 * (a * x * y * z) + 10 ^ 18 * (v * (x * z)) := by ring
      _ ≤ 10 ^ 18 * total + total := by omega
      _ = (10 ^ 18 + 1) * total := by ring

/-- Digits that are dropped from a whole part of more than 64 bits may be replaced by those behind the
point. That makes the number larger by less than its first nineteen digits count. -/
theorem gathered_le {whole fraction : List Char} (hw : ∀ c ∈ whole, c.isDigit = true)
    (hf : ∀ c ∈ fraction, c.isDigit = true) {s t : ℕ} {dropped ignored : List Char}
    (hs : gather 0 whole = (s, dropped)) (ht : gather s fraction = (t, ignored)) :
    t < 2 ^ 64 ∧ ignored.length ≤ fraction.length ∧
      10 ^ 18 * (t * 10 ^ (dropped.length + ignored.length)) ≤
        (10 ^ 18 + 1) * ofDigits (whole ++ fraction) := by
  obtain ⟨front, rest, rfl, hgather, hlt, hfull⟩ := gather_spec hw (n := 0) (by norm_num)
  obtain ⟨rfl, rfl⟩ := Prod.mk.inj (hgather.symm.trans hs)
  obtain ⟨behind, rest', rfl, hgather', hlt', -⟩ := gather_spec hf hlt
  obtain ⟨rfl, rfl⟩ := Prod.mk.inj (hgather'.symm.trans ht)
  refine ⟨hlt', by simp, ?_⟩
  have hbehind : ofDigits behind < 10 ^ behind.length :=
    ofDigits_lt fun c hc => hf c (List.mem_append_left _ hc)
  have htotal : ofDigits front * 10 ^ rest.length * 10 ^ behind.length * 10 ^ rest'.length +
      ofDigits behind * 10 ^ rest'.length ≤ ofDigits (front ++ rest ++ (behind ++ rest')) := by
    simp only [ofDigits_append, List.length_append, pow_add]
    nlinarith [Nat.zero_le (ofDigits rest * (10 ^ behind.length * 10 ^ rest'.length)),
      Nat.zero_le (ofDigits rest')]
  rw [ofDigitChars_eq, pow_add]
  refine replaced_le htotal hbehind.le ?_
  rcases eq_or_ne rest [] with rfl | hrest
  · exact .inl rfl
  · have hlarge : 2 ^ 64 ≤ 10 * ofDigits front + 9 := hfull hrest
    right
    show 10 ^ 18 ≤ ofDigits front
    omega

/-! ## Scaling -/

theorem exists_shrink? (times : ℕ) (x : Binary64) : ∃ y, shrink? times x = some y := by
  induction times generalizing x with
  | zero => exact ⟨x, rfl⟩
  | succ times ih =>
    rw [shrink?]
    split
    · exact ⟨x, rfl⟩
    · obtain ⟨p, hp, hpower⟩ := Binary64.exists_pow10? (n := 308) (Nat.le_refl _)
      obtain ⟨z, hz⟩ := x.exists_div? hpower.one_le
      obtain ⟨y, hy⟩ := ih z
      refine ⟨y, ?_⟩
      rw [hp, Option.bind_eq_bind, Option.bind_some, hz, Option.bind_some, hy]

/-- A number that is made smaller stays finite. -/
theorem exists_lower? (x : Binary64) (n : ℕ) : ∃ y, lower? x n = some y := by
  have hle : n - 308 * ((n - 1) / 308) ≤ 308 := by omega
  obtain ⟨p, hp, hpower⟩ := Binary64.exists_pow10? hle
  obtain ⟨z, hz⟩ := exists_shrink? ((n - 1) / 308) x
  obtain ⟨y, hy⟩ := z.exists_div? hpower.one_le
  refine ⟨y, ?_⟩
  rw [lower?, hz, hp, Option.bind_eq_bind, Option.bind_some, Option.bind_some, hy]

/-- What two steps of rounding can make of one. -/
def growth : ℚ := (1 + 1 / 2 ^ 53) ^ 2

theorem one_le_growth : 1 ≤ growth := by norm_num [growth]

/-- A number that is made larger stays finite if the value and what two steps of rounding add to it lie
below the limit. -/
theorem exists_raise? {n k : ℕ} {x : Binary64} (hx : Binary64.Stands n x) (hn : 0 < n)
    (h : (n : ℚ) * 10 ^ k * growth < Binary64.overflow) : ∃ y, raise? x k = some y := by
  have hpos : (1 : ℚ) ≤ n := Nat.one_le_cast.2 hn
  have hpow : (0 : ℚ) < 10 ^ k := by positivity
  have hk : k ≤ 308 := by
    by_contra hk
    have hlarge : (10 : ℚ) ^ (309 : ℤ) ≤ 10 ^ k := by
      rw [← zpow_natCast]
      exact zpow_le_zpow_right₀ (by norm_num) (by omega)
    have hle : (10 : ℚ) ^ k ≤ n * 10 ^ k * growth :=
      calc (10 : ℚ) ^ k ≤ n * 10 ^ k := le_mul_of_one_le_left hpow.le hpos
        _ ≤ n * 10 ^ k * growth := le_mul_of_one_le_right (by positivity) one_le_growth
    linarith [Binary64.overflow_le]
  obtain ⟨p, hp, hpower⟩ := Binary64.exists_pow10? hk
  have hproduct : (x.units : ℚ) / Binary64.one * (p.units / Binary64.one) < Binary64.overflow := by
    have hple := hpower.le
    rw [Nat.cast_pow, Nat.cast_ofNat] at hple
    refine lt_of_le_of_lt ?_ h
    calc (x.units : ℚ) / Binary64.one * (p.units / Binary64.one)
        ≤ n * (1 + 1 / 2 ^ 53) * (10 ^ k * (1 + 1 / 2 ^ 53)) :=
          mul_le_mul hx.le hple (div_nonneg (Nat.cast_nonneg _) Binary64.one_pos.le) (by positivity)
      _ = n * 10 ^ k * growth := by rw [growth]; ring
  obtain ⟨y, hy⟩ := Binary64.exists_mul? hproduct
  refine ⟨y, ?_⟩
  rw [raise?, if_pos hk, hp, Option.bind_eq_bind, Option.bind_some, hy]

/-- Zero can be made as large as one likes. -/
theorem exists_raise?_zero (k : ℕ) : ∃ y, raise? (.zero false) k = some y := by
  rw [raise?]
  split
  · next hk =>
    obtain ⟨p, hp, -⟩ := Binary64.exists_pow10? hk
    have hproduct : ((Binary64.zero false).units : ℚ) / Binary64.one * (p.units / Binary64.one) <
        Binary64.overflow := by
      rw [Binary64.units_zero, Nat.cast_zero, zero_div, zero_mul]
      exact zero_lt_one.trans Binary64.one_lt_overflow
    rw [hp, Option.bind_eq_bind, Option.bind_some]
    exact Binary64.exists_mul? hproduct
  · exact ⟨.zero false, rfl⟩

/-- As many digits as 64 bits hold are scaled to a finite number if the value leaves room for two steps
of rounding below the limit. -/
theorem exists_scaled? {n : ℕ} (hn : n < 2 ^ 64) {e : ℤ}
    (h : (n : ℚ) * 10 ^ e * growth < Binary64.overflow) : ∃ y, scaled? n e = some y := by
  rcases Nat.eq_zero_or_pos n with rfl | hpos
  · have hzero : Binary64.ofInt? (0 : ℕ) = some (.zero false) := by decide +kernel
    rw [scaled?, hzero, Option.bind_eq_bind, Option.bind_some]
    split
    · exact exists_raise?_zero _
    · exact exists_lower? _ _
  · obtain ⟨x, hx, hstands⟩ := Binary64.exists_ofInt? hpos hn
    rw [scaled?, hx, Option.bind_eq_bind, Option.bind_some]
    split
    · next he =>
      rw [← Int.toNat_of_nonneg he, zpow_natCast] at h
      exact exists_raise? hstands hpos h
    · exact exists_lower? _ _

/-! ## Best effort -/

/-- What the rounding and the replaced digits of a best effort can make of one. -/
def slack : ℚ := (1 + 1 / 10 ^ 18) * growth

/-- What is scaled is no larger than the value by more than the digits that were replaced. -/
theorem scaled_le {whole fraction : List Char} (hw : ∀ c ∈ whole, c.isDigit = true)
    (hf : ∀ c ∈ fraction, c.isDigit = true) {s t : ℕ} {dropped ignored : List Char}
    (hs : gather 0 whole = (s, dropped)) (ht : gather s fraction = (t, ignored)) (e : ℤ) :
    t < 2 ^ 64 ∧
      (t : ℚ) * 10 ^ ((dropped.length : ℤ) - (fraction.length - ignored.length : ℕ) + e) ≤
        (1 + 1 / 10 ^ 18) * (ofDigits (whole ++ fraction) * 10 ^ (e - fraction.length)) := by
  obtain ⟨hlt, hlength, hle⟩ := gathered_le hw hf hs ht
  refine ⟨hlt, ?_⟩
  have hexponent : (dropped.length : ℤ) - (fraction.length - ignored.length : ℕ) + e =
      (dropped.length + ignored.length : ℕ) + (e - fraction.length) := by omega
  have hpow : (0 : ℚ) < 10 ^ (e - fraction.length) := by positivity
  have hcast : ((10 ^ 18 * (t * 10 ^ (dropped.length + ignored.length)) : ℕ) : ℚ) ≤
      ((10 ^ 18 + 1) * ofDigits (whole ++ fraction) : ℕ) := Nat.cast_le.2 hle
  push_cast at hcast
  have hscaled : (t : ℚ) * 10 ^ (dropped.length + ignored.length) ≤
      (1 + 1 / 10 ^ 18) * ofDigits (whole ++ fraction) := by linarith
  rw [hexponent, zpow_add₀ (by norm_num), zpow_natCast, ← mul_assoc, ← mul_assoc]
  exact mul_le_mul_of_nonneg_right hscaled hpow.le

/-- An exponent of 31 bits is added to what the point and the dropped digits make of it. -/
theorem bestEffort_eq {negative : Bool} {whole fraction : List Char} {exponent : Option ℤ} {s t : ℕ}
    {dropped ignored : List Char} (hs : gather 0 whole = (s, dropped))
    (ht : gather s fraction = (t, ignored)) (hexponent : (exponent.getD 0).natAbs ≤ 0x7fffffff) :
    bestEffort negative whole fraction exponent =
      (scaled? t ((dropped.length : ℤ) - (fraction.length - ignored.length : ℕ) +
        exponent.getD 0)).map (Binary64.withSign negative) := by
  simp only [bestEffort, hs, ht]
  congr 1
  cases exponent with
  | none => rw [Option.getD_none, add_zero]
  | some e => exact if_neg (Nat.not_lt.2 hexponent)

/-- The best effort makes a number of digits whose value leaves some room below the limit. -/
theorem exists_bestEffort {negative : Bool} {whole fraction : List Char} {exponent : Option ℤ}
    (hw : ∀ c ∈ whole, c.isDigit = true) (hf : ∀ c ∈ fraction, c.isDigit = true)
    (hexponent : ∀ e ∈ exponent, e ≤ 0x7fffffff)
    (h : (Decimal.ofParts negative whole fraction (exponent.getD 0)).magnitude * slack <
      Binary64.overflow) :
    ∃ x, bestEffort negative whole fraction exponent = some x := by
  rcases hs : gather 0 whole with ⟨s, dropped⟩
  rcases ht : gather s fraction with ⟨t, ignored⟩
  rcases Nat.lt_or_ge 0x7fffffff (exponent.getD 0).natAbs with hlarge | hsmall
  · -- the exponent is negative, so it makes zero of any digits
    cases exponent with
    | none => cases hlarge
    | some e =>
      have hle : e ≤ 0x7fffffff := hexponent e rfl
      have hlarge : 0x7fffffff < e.natAbs := hlarge
      simp only [bestEffort, hs, ht, if_pos hlarge]
      rw [exceeding?, if_neg (by omega)]
      exact ⟨_, rfl⟩
  · obtain ⟨hlt, hle⟩ := scaled_le hw hf hs ht (exponent.getD 0)
    have hroom : (t : ℚ) * 10 ^ ((dropped.length : ℤ) - (fraction.length - ignored.length : ℕ) +
        exponent.getD 0) * growth < Binary64.overflow := by
      refine lt_of_le_of_lt ?_ h
      rw [slack, Decimal.magnitude, Decimal.ofParts, ← mul_assoc]
      refine mul_le_mul_of_nonneg_right ?_ (zero_le_one.trans one_le_growth)
      linarith
    obtain ⟨y, hy⟩ := exists_scaled? hlt hroom
    exact ⟨y.withSign negative, by rw [bestEffort_eq hs ht hsmall, hy, Option.map_some]⟩

/-- The best effort keeps the sign. -/
theorem negative_of_bestEffort {negative : Bool} {whole fraction : List Char} {exponent : Option ℤ}
    {x : Binary64} (h : bestEffort negative whole fraction exponent = some x) :
    x.negative = negative := by
  obtain ⟨y, -, rfl⟩ := Option.map_eq_some_iff.1 h
  rfl

/-! ## Few digits -/

/-- The digits without the point are a number of 53 bits, and the point and the exponent move it by no
more than twenty-two places. -/
structure Few (whole fraction : List Char) (exponent : Option ℤ) : Prop where
  digits : ofDigits (whole ++ fraction) < 2 ^ 53
  places : (exponent.getD 0 - fraction.length).natAbs ≤ 22
  exponent : (exponent.getD 0).natAbs ≤ 0x7fffffff

theorem gather_all {cs : List Char} {n : ℕ} (h : Nat.ofDigitChars 10 cs n < 2 ^ 64) :
    gather n cs = (Nat.ofDigitChars 10 cs n, []) := by
  induction cs generalizing n with
  | nil => rfl
  | cons c cs ih =>
    rw [Nat.ofDigitChars_cons] at h
    have hlonger : 10 * n + (c.toNat - '0'.toNat) < 0x10000000000000000 := by
      rw [ofDigitChars_eq] at h
      exact (Nat.le_mul_of_pos_right _ (Nat.pow_pos (by norm_num))).trans_lt
        ((Nat.le_add_right _ _).trans_lt h)
    rw [gather, if_pos hlonger, ih h, Nat.ofDigitChars_cons]

/-- What has few digits is scaled in one step, which rounds to the nearest number. -/
theorem scaled?_of_few {n : ℕ} (hn : n < 2 ^ 53) {e : ℤ} (he : e.natAbs ≤ 22) :
    scaled? n e = Binary64.ofDecimal? ⟨false, n, e⟩ := by
  obtain ⟨x, hx, hwhole⟩ := Binary64.exists_whole hn
  rw [scaled?, hx, Option.bind_eq_bind, Option.bind_some, Binary64.ofDecimal?_of_few hn he]
  split
  · have hle : e.toNat ≤ 22 := by omega
    obtain ⟨p, hp, hpower⟩ := Binary64.exists_pow10?_whole hle
    rw [raise?, if_pos (hle.trans (by norm_num)), hp, Option.bind_eq_bind, Option.bind_some]
    exact hwhole.mul? hpower
  · have hle : (-e).toNat ≤ 22 := by omega
    have hsteps : ((-e).toNat - 1) / 308 = 0 := by omega
    obtain ⟨p, hp, hpower⟩ := Binary64.exists_pow10?_whole hle
    rw [lower?, hsteps, shrink?, Nat.mul_zero, Nat.sub_zero, hp, Option.bind_eq_bind,
      Option.bind_some, Option.bind_some]
    exact hwhole.div? hpower

/-- Of few digits a best effort makes the nearest number. -/
theorem Few.bestEffort_eq_nearest {whole fraction : List Char} {exponent : Option ℤ}
    (h : Few whole fraction exponent) (negative : Bool) :
    bestEffort negative whole fraction exponent = nearest negative whole fraction exponent := by
  have htotal : Nat.ofDigitChars 10 fraction (ofDigits whole) = ofDigits (whole ++ fraction) := by
    rw [ofDigitChars_eq, ofDigits_append]
  have hall : ofDigits (whole ++ fraction) < 2 ^ 64 := h.digits.trans (by norm_num)
  have hfront : gather 0 whole = (ofDigits whole, []) := by
    refine gather_all (lt_of_le_of_lt ?_ hall)
    rw [ofDigits_append]
    exact (Nat.le_mul_of_pos_right _ (Nat.pow_pos (by norm_num))).trans (Nat.le_add_right _ _)
  have hrest : gather (ofDigits whole) fraction = (ofDigits (whole ++ fraction), []) := by
    rw [gather_all (htotal.trans_lt hall), htotal]
  have hplaces : (([] : List Char).length : ℤ) -
      (fraction.length - ([] : List Char).length : ℕ) + exponent.getD 0 =
        exponent.getD 0 - fraction.length := by
    rw [List.length_nil]
    omega
  rw [bestEffort_eq hfront hrest h.exponent, hplaces, scaled?_of_few h.digits h.places, nearest,
    Decimal.ofParts, Binary64.ofDecimal?_withSign negative]
end Screening.Json.FloatReading
