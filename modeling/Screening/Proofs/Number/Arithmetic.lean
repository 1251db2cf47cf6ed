import Screening.Proofs.Number.Nearest

/-!
# Arithmetic of binary64 numbers

How far rounding can go up, and from where on results are infinite. A whole number below that limit is
rounded to one that is no smaller than one and no more than a fraction larger; so are the powers of ten
up to `10 ^ 308`. A product is finite below the limit, and a quotient by one or more always is. Whole
numbers of 53 bits and powers of ten up to `10 ^ 22` are not rounded at all, so a product or a quotient
of them is rounded once.
-/

namespace Screening.Number.Binary64

/-! ## Units -/

theorem cast_units (x : Binary64) : (x.units : ℚ) = x.significand * 2 ^ x.exponent := by
  rw [units, Nat.cast_mul, cast_natPow]

/-- Among numbers with all their digits the size decides on the exponent before the significand. -/
theorem le_of_units_le {x y : Binary64} (hy : 2 ^ 52 < y.significand)
    (hexponent : x.exponent ≤ y.exponent) (h : y.units ≤ x.units) :
    x.exponent = y.exponent ∧ y.significand ≤ x.significand := by
  have hpow : 0 < 2 ^ y.exponent := Nat.pow_pos two_pos
  have heq : x.exponent = y.exponent := by
    by_contra hne
    have hx : x.units ≤ 2 ^ 52 * 2 ^ y.exponent :=
      mul_pow_le x.significand_lt.le (lt_of_le_of_ne hexponent hne)
    have hlt : 2 ^ 52 * 2 ^ y.exponent < y.units := Nat.mul_lt_mul_of_pos_right hy hpow
    omega
  have hunits : x.units = x.significand * 2 ^ y.exponent := by rw [units, heq]; rfl
  rw [hunits] at h
  exact ⟨heq, Nat.le_of_mul_le_mul_right h hpow⟩

/-! ## Rounding up -/

/-- What rounding adds to a value that is not too small is a fraction of it. -/
theorem units_le_of_ofUnits? {negative : Bool} {num den : ℕ} {x : Binary64} (hden : 0 < den)
    (hlarge : 2 ^ 52 ≤ (num : ℚ) / den) (h : ofUnits? negative num den = some x) :
    (x.units : ℚ) ≤ num / den * (1 + 1 / 2 ^ 53) := by
  obtain ⟨s, e, hround, hbig, hspec⟩ := ofUnits?_rounded negative num hden
  have hpow : (0 : ℚ) < 2 ^ e := by positivity
  have hunits : (x.units : ℚ) = s * 2 ^ e := by
    split at hspec
    · obtain ⟨y, hy, -, hunits, -⟩ := hspec
      obtain rfl : y = x := Option.some.inj (hy.symm.trans h)
      exact_mod_cast hunits
    · rw [hspec] at h
      cases h
  -- half a unit at the exponent is that fraction at most
  have hunit : (2 : ℚ) ^ e * 2 ^ 52 ≤ num / den := by
    rcases hbig with rfl | hbig
    · rwa [pow_zero, one_mul]
    · rwa [mul_comm]
  have hhalf : (s : ℚ) * 2 ^ e ≤ num / den + 2 ^ e / 2 := by
    have hs : (s : ℚ) ≤ num / den / 2 ^ e + 1 / 2 := by
      have := (abs_le.1 hround.le_half).1
      linarith
    calc (s : ℚ) * 2 ^ e ≤ (num / den / 2 ^ e + 1 / 2) * 2 ^ e := by gcongr
      _ = num / den + 2 ^ e / 2 := by field_simp
  rw [hunits]
  linarith

/-- Rounding does not go below a number that the value is not below. -/
theorem IsNearest.units_le {m : ℚ} {x : Binary64} (h : x.IsNearest (sign x.negative * m))
    {y : Binary64} (hy : (y.units : ℚ) / one ≤ m) : y.units ≤ x.units := by
  by_contra hlt
  have hx : (x.units : ℚ) / one < y.units / one :=
    div_lt_div_of_pos_right (Nat.cast_lt.2 (Nat.not_le.1 hlt)) one_pos
  have hdist (z : Binary64) (hz : z.negative = x.negative) :
      |sign x.negative * m - z.toRat| = |m - z.units / one| := by
    rw [toRat, hz, ← mul_sub, abs_mul, abs_sign, one_mul]
  have hle := h.le (y.withSign x.negative)
  rw [hdist x rfl, hdist (y.withSign x.negative) rfl] at hle
  have hunits : (y.withSign x.negative).units = y.units := rfl
  rw [hunits, abs_of_nonneg (by linarith), abs_of_nonneg (by linarith)] at hle
  linarith

/-! ## Whole numbers and powers of ten -/

/-- The number is the whole number `n`, rounded up by a fraction at most and not down below one. -/
structure Stands (n : ℕ) (x : Binary64) : Prop where
  one_le : one ≤ x.units
  le : (x.units : ℚ) / one ≤ n * (1 + 1 / 2 ^ 53)

theorem exists_stands {n : ℕ} (hn : 0 < n) (h : (n : ℚ) < overflow) :
    ∃ x, ofUnits? false (n * one) 1 = some x ∧ Stands n x := by
  have hvalue : ((n * one : ℕ) : ℚ) / (1 : ℕ) = n * one := by
    rw [Nat.cast_one, div_one, Nat.cast_mul]
  have hspec := ofUnits?_spec false (n * one) Nat.one_pos
  rw [hvalue, if_pos (mul_lt_mul_of_pos_right h one_pos),
    mul_div_cancel_right₀ _ one_pos.ne'] at hspec
  obtain ⟨x, hx, hsign, hnearest⟩ := hspec
  have hpos : (1 : ℚ) ≤ n := Nat.one_le_cast.2 hn
  refine ⟨x, hx, ?_, ?_⟩
  · -- one is a number itself
    obtain ⟨y, hy⟩ : ∃ y : Binary64, y.units = one :=
      ⟨⟨false, 0x10000000000000, 1022, by decide, by decide, .inr (by decide)⟩, by decide +kernel⟩
    rw [← hsign] at hnearest
    rw [← hy]
    refine hnearest.units_le ?_
    rwa [hy, div_self one_pos.ne']
  · have hone : (2 : ℚ) ^ 52 ≤ one := by
      have hle : 2 ^ 52 ≤ one := by decide +kernel
      exact_mod_cast Nat.cast_le (α := ℚ).2 hle
    have hlarge : (2 : ℚ) ^ 52 ≤ ((n * one : ℕ) : ℚ) / (1 : ℕ) := by
      rw [hvalue]
      exact hone.trans (le_mul_of_one_le_left one_pos.le hpos)
    have hle := units_le_of_ofUnits? Nat.one_pos hlarge hx
    rw [hvalue, mul_right_comm] at hle
    rwa [div_le_iff₀ one_pos]

theorem ofInt?_natCast (n : ℕ) : ofInt? n = ofUnits? false (n * one) 1 := by
  rw [ofInt?, Int.natAbs_natCast, decide_eq_false (Int.natCast_nonneg n).not_gt]

/-- Every positive number of 64 bits has a binary64 number that stands for it. -/
theorem exists_ofInt? {n : ℕ} (hn : 0 < n) (h : n < 2 ^ 64) :
    ∃ x, ofInt? n = some x ∧ Stands n x := by
  have hlt : (n : ℚ) < 2 ^ 64 := by exact_mod_cast h
  have hlimit : (2 : ℚ) ^ 64 ≤ 2 ^ 970 := pow_le_pow_right₀ (by norm_num) (by norm_num)
  have hfinite : (n : ℚ) < overflow := by
    rw [overflow]
    generalize (2 : ℚ) ^ 970 = top at hlimit
    linarith
  rw [ofInt?_natCast]
  exact exists_stands hn hfinite

theorem pow_lt_overflow {n : ℕ} (h : n ≤ 308) : (10 : ℚ) ^ n < overflow := by
  have hlast : Nat.pow 10 308 < (2 ^ 54 - 1) * Nat.pow 2 970 := by decide +kernel
  have hcast : ((Nat.pow 10 308 : ℕ) : ℚ) < ((2 ^ 54 - 1) * Nat.pow 2 970 : ℕ) := Nat.cast_lt.2 hlast
  rw [Nat.cast_mul, cast_natPow 970, Nat.pow_eq, Nat.cast_pow, Nat.cast_ofNat] at hcast
  calc (10 : ℚ) ^ n ≤ 10 ^ 308 := pow_le_pow_right₀ (by norm_num) h
    _ < (2 ^ 54 - 1 : ℕ) * 2 ^ 970 := hcast
    _ = overflow := by rw [overflow]; norm_num

/-- Up to `10 ^ 308` a power of ten has a binary64 number that stands for it. -/
theorem exists_pow10? {n : ℕ} (h : n ≤ 308) : ∃ p, pow10? n = some p ∧ Stands (10 ^ n) p := by
  have hstands := exists_stands (n := 10 ^ n) (Nat.pow_pos (by norm_num))
    (by exact_mod_cast pow_lt_overflow h)
  have hone : digitCount 1 = 1 := rfl
  have htop : ¬ 309 < ((1 : ℕ) : ℤ) + (n : ℤ) := by omega
  have hbottom : ¬ ((1 : ℕ) : ℤ) + (n : ℤ) ≤ -324 := by omega
  have hread : pow10? n = ofUnits? false (10 ^ n * one) 1 := by
    simp only [pow10?, ofDecimal?, hone, one_ne_zero, htop, hbottom, Int.natCast_nonneg, if_true,
      if_false, Int.toNat_natCast, Nat.one_mul, Nat.pow_eq]
  rwa [hread]

/-! ## Finite results -/

theorem units_lt_overflow (x : Binary64) : (x.units : ℚ) < overflow * one := by
  have hsignificand : (x.significand : ℚ) ≤ 2 ^ 53 - 1 := by
    have hle : x.significand + 1 ≤ 2 ^ 53 := x.significand_lt
    have hcast : ((x.significand + 1 : ℕ) : ℚ) ≤ (2 ^ 53 : ℕ) := Nat.cast_le.2 hle
    push_cast at hcast
    linarith
  have hpow : (2 : ℚ) ^ x.exponent ≤ 2 ^ (2044 + 1) :=
    pow_le_pow_right₀ (by norm_num) x.exponent_le
  have htop : (0 : ℚ) < 2 ^ 2044 := by positivity
  have hunits : (x.units : ℚ) ≤ (2 ^ 53 - 1) * 2 ^ (2044 + 1) := by
    rw [cast_units]
    exact mul_le_mul hsignificand hpow (by positivity) (by norm_num)
  rw [pow_succ (2 : ℚ) 2044] at hunits
  rw [overflow_mul_one]
  refine hunits.trans_lt ?_
  generalize (2 : ℚ) ^ 2044 = top at htop
  norm_num
  linarith

/-- Below the limit a product is a number. -/
theorem exists_mul? {x y : Binary64} (h : (x.units : ℚ) / one * (y.units / one) < overflow) :
    ∃ z, x.mul? y = some z := by
  have hvalue : ((x.units * y.units : ℕ) : ℚ) / one < overflow * one := by
    rw [← mul_div_mul_comm, ← div_div, div_lt_iff₀ one_pos] at h
    rwa [Nat.cast_mul]
  have hspec := ofUnits?_spec (x.negative != y.negative) (x.units * y.units) (Nat.cast_pos.1 one_pos)
  rw [if_pos hvalue] at hspec
  obtain ⟨z, hz, -⟩ := hspec
  exact ⟨z, hz⟩

/-- A quotient by one or more is a number. -/
theorem exists_div? (x : Binary64) {y : Binary64} (h : one ≤ y.units) : ∃ z, x.div? y = some z := by
  have hone : (0 : ℚ) < y.units := one_pos.trans_le (Nat.cast_le.2 h)
  have hle : ((x.units * one : ℕ) : ℚ) / y.units ≤ x.units := by
    rw [div_le_iff₀ hone, Nat.cast_mul]
    exact mul_le_mul_of_nonneg_left (Nat.cast_le.2 h) (Nat.cast_nonneg _)
  have hspec := ofUnits?_spec (x.negative != y.negative) (x.units * one) (Nat.cast_pos.1 hone)
  rw [if_pos (hle.trans_lt x.units_lt_overflow)] at hspec
  obtain ⟨z, hz, -⟩ := hspec
  exact ⟨z, hz⟩

/-! ## Exact results -/

theorem log2_mul_two_pow {n : ℕ} (hn : n ≠ 0) (k : ℕ) : (n * 2 ^ k).log2 = n.log2 + k := by
  have hpow : 0 < 2 ^ k := Nat.pow_pos two_pos
  obtain ⟨hle, hlt⟩ := (Nat.log2_eq_iff hn).1 rfl
  refine (Nat.log2_eq_iff (Nat.mul_ne_zero hn hpow.ne')).2 ⟨?_, ?_⟩
  · rw [pow_add]
    exact Nat.mul_le_mul_right _ hle
  · rw [Nat.add_right_comm, pow_add]
    exact Nat.mul_lt_mul_of_pos_right hlt hpow

theorem ofUnits?_zero (negative : Bool) (den : ℕ) : ofUnits? negative 0 den = some (zero negative) := by
  have hlog : (0 / den).log2 - 52 = 0 := by rw [Nat.zero_div, Nat.log2_zero]
  have hround : roundHalfEven 0 (den * Nat.pow 2 0) = 0 := by
    simp [roundHalfEven]
  simp only [ofUnits?, hlog, hround]
  rfl

/-- The number is the whole number `n`. -/
structure IsWhole (n : ℕ) (x : Binary64) : Prop where
  negative : x.negative = false
  units : x.units = n * one

/-- A whole number of no more than 53 bits is a number. -/
theorem exists_whole {n : ℕ} (hn : n < 2 ^ 53) : ∃ x, ofInt? n = some x ∧ IsWhole n x := by
  rw [ofInt?_natCast]
  rcases Nat.eq_zero_or_pos n with rfl | hpos
  · refine ⟨zero false, ?_, rfl, ?_⟩
    · rw [Nat.zero_mul, ofUnits?_zero]
    · rw [Nat.zero_mul, units_zero]
  obtain ⟨hlow, hhigh⟩ := (Nat.log2_eq_iff hpos.ne').1 rfl
  obtain ⟨k, hk⟩ : ∃ k, 52 = n.log2 + k :=
    Nat.exists_eq_add_of_le (Nat.le_of_lt_succ ((Nat.log2_lt hpos.ne').2 hn))
  -- the first bit is moved to the 53rd
  have hone : one = 2 ^ k * 2 ^ (n.log2 + 1022) := by
    have hsum : 1074 = k + (n.log2 + 1022) := by omega
    unfold one
    rw [hsum]
    exact Nat.pow_add 2 _ _
  have hexponent : (n * one / 1).log2 - 52 = n.log2 + 1022 := by
    rw [Nat.div_one, hone, ← pow_add, log2_mul_two_pow hpos.ne']
    omega
  have hround : roundHalfEven (n * one) (1 * Nat.pow 2 (n.log2 + 1022)) = n * 2 ^ k := by
    rw [hone, ← Nat.mul_assoc, Nat.one_mul]
    exact roundHalfEven_mul_self _ (Nat.pow_pos two_pos)
  have hlarge : 2 ^ 52 ≤ n * 2 ^ k := by
    rw [hk, pow_add]
    exact Nat.mul_le_mul_right _ hlow
  have hsmall : n * 2 ^ k < 2 ^ 53 := by
    have hbits : 2 ^ 53 = 2 ^ (n.log2 + 1) * 2 ^ k := by
      rw [← pow_add, Nat.add_right_comm, ← hk]
    rw [hbits]
    exact Nat.mul_lt_mul_of_pos_right hhigh (Nat.pow_pos two_pos)
  obtain ⟨x, hx, hsign, hunits, -⟩ :=
    exists_pack? false (e := n.log2 + 1022) hsmall.le (.inr hlarge) (.inl (by omega))
  refine ⟨x, ?_, hsign, ?_⟩
  · simp only [ofUnits?, hexponent, hround, hx]
  · rw [hunits, hone, ← Nat.mul_assoc]

/-- Powers of ten are numbers up to `10 ^ 22`. -/
theorem exists_pow10?_whole {k : ℕ} (hk : k ≤ 22) :
    ∃ p, pow10? k = some p ∧ IsWhole (Nat.pow 10 k) p := by
  have hall : ∀ k : Fin 23, (pow10? k).map (fun p => (p.negative, p.units)) =
      some (false, Nat.pow 10 k * one) := by decide +kernel
  obtain ⟨p, hp, heq⟩ := Option.map_eq_some_iff.1 (hall ⟨k, Nat.lt_succ_of_le hk⟩)
  exact ⟨p, hp, congrArg Prod.fst heq, congrArg Prod.snd heq⟩

section

variable {n k : ℕ} {x y : Binary64}

/-- The product of whole numbers is rounded once. -/
theorem IsWhole.mul? (hx : IsWhole n x) (hy : IsWhole k y) :
    mul? x y = ofUnits? false (n * k * one) 1 := by
  have hunits : n * one * (k * one) = n * k * one * one := by ring
  have hscale := ofUnits?_mul false (n * k * one) 1 (Nat.cast_pos.1 one_pos)
  rw [Nat.one_mul] at hscale
  rw [Binary64.mul?, hx.negative, hy.negative, hx.units, hy.units, hunits]
  exact hscale

/-- The quotient of whole numbers is rounded once. -/
theorem IsWhole.div? (hx : IsWhole n x) (hy : IsWhole k y) :
    div? x y = ofUnits? false (n * one) k := by
  rw [Binary64.div?, hx.negative, hy.negative, hx.units, hy.units]
  exact ofUnits?_mul false (n * one) k (Nat.cast_pos.1 one_pos)

end

/-- A decimal of few digits that is neither large nor small is rounded from the quotient or the product
that it is. -/
theorem ofDecimal?_of_few {n : ℕ} (hn : n < 2 ^ 53) {e : ℤ} (he : e.natAbs ≤ 22) :
    ofDecimal? ⟨false, n, e⟩ =
      if 0 ≤ e then ofUnits? false (n * Nat.pow 10 e.toNat * one) 1
      else ofUnits? false (n * one) (Nat.pow 10 (-e).toNat) := by
  rcases eq_or_ne n 0 with rfl | hne
  · simp only [Nat.zero_mul, ofUnits?_zero, ite_self]
    rfl
  · have hdigits : digitCount n ≤ 16 := (digitCount_le_iff (by norm_num)).2 (hn.trans (by norm_num))
    have htop : ¬ 309 < (digitCount n : ℤ) + e := by omega
    have hbottom : ¬ (digitCount n : ℤ) + e ≤ -324 := by omega
    simp only [ofDecimal?, hne, htop, hbottom, if_false]

theorem ofDecimal?_withSign (negative : Bool) (n : ℕ) (e : ℤ) :
    ofDecimal? ⟨negative, n, e⟩ = (ofDecimal? ⟨false, n, e⟩).map (withSign negative) := by
  have hunits (num den : ℕ) :
      ofUnits? negative num den = (ofUnits? false num den).map (withSign negative) := by
    simp only [ofUnits?, pack?]
    split_ifs <;> rfl
  simp only [ofDecimal?, hunits]
  split_ifs <;> rfl

end Screening.Number.Binary64
