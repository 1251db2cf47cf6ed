import Screening.Proofs.Number.Rounding

/-!
# The shortest digits read back

Whatever digits are chosen for a number other than zero, reading them gives the number again:
every candidate is tried before it is taken, and the exact value, which stands in reserve, is
its own nearest number.
-/

namespace Screening.Number.Binary64

/-! ## The exact value -/

theorem natPow_pos {b : Nat} (hb : 0 < b) (n : Nat) : 0 < Nat.pow b n := Nat.pow_pos hb

theorem units_lt {x : Binary64} {m : Nat} (hm : x.exponent ≤ m) :
    x.units < 0x20000000000000 * Nat.pow 2 m :=
  calc x.units < 0x20000000000000 * Nat.pow 2 x.exponent :=
        Nat.mul_lt_mul_of_pos_right x.significand_lt (natPow_pos (by decide) _)
    _ ≤ 0x20000000000000 * Nat.pow 2 m :=
        Nat.mul_le_mul_left _ (Nat.pow_le_pow_right (by decide) hm)

theorem ofUnits?_units_mul_pow (x : Binary64) (n : Nat) :
    ofUnits? x.negative (x.units * Nat.pow 10 n) (Nat.pow 10 n) = some x := by
  have h := ofUnits?_mul x.negative x.units 1 (natPow_pos (b := 10) (by decide) n)
  rwa [Nat.one_mul, ofUnits?_units] at h

theorem lt_digitCount_units_mul {x : Binary64} (hx : x.significand ≠ 0) {k f : Nat} (hk : 0 < k)
    (hf : Nat.pow 10 k ≤ f) : k < digitCount (x.units * f) := by
  have hle : Nat.pow 10 k ≤ x.units * f := hf.trans (Nat.le_mul_of_pos_left _ (units_pos hx))
  by_contra h
  exact Nat.not_lt.2 hle ((digitCount_le_iff hk).1 (Nat.not_lt.1 h))

theorem digitCount_units_mul_le {x : Binary64} {k m f : Nat} (hk : 0 < k) (hm : x.exponent ≤ m)
    (hf : 0 < f) (hlt : 0x20000000000000 * Nat.pow 2 m * f < Nat.pow 10 k) :
    digitCount (x.units * f) ≤ k := by
  refine (digitCount_le_iff hk).2 (Nat.lt_trans ?_ hlt)
  exact Nat.mul_lt_mul_of_pos_right (units_lt hm) hf

theorem decimalUnits_mul_one : decimalUnits * one = Nat.pow 10 1074 := by decide +kernel

/-- A decimal with digits behind the point that is neither infinite nor zero is a ratio. -/
theorem ofDecimal?_of_neg {d : Decimal} {n : Nat} (hexp : d.exponent = -(n : Int)) (hn : 0 < n)
    (hgt : n < digitCount d.digits + 324) (hle : digitCount d.digits ≤ 309 + n)
    (hne : d.digits ≠ 0) :
    ofDecimal? d = ofUnits? d.negative (d.digits * one) (Nat.pow 10 n) := by
  have htop : ¬ 309 < (digitCount d.digits : Int) + -(n : Int) := by omega
  have hbottom : ¬ (digitCount d.digits : Int) + -(n : Int) ≤ -324 := by omega
  have hneg : ¬ (0 : Int) ≤ -(n : Int) := by omega
  simp only [ofDecimal?, hexp, hne, htop, hbottom, hneg, if_false, Int.neg_neg, Int.toNat_natCast]

/-- A decimal whose digits count a number's own units is read as the number. -/
theorem ofDecimal?_of_scale {x : Binary64} {d : Decimal} {n : Nat}
    (hneg : d.negative = x.negative) (hexp : d.exponent = -(n : Int)) (hn : 0 < n)
    (hgt : n < digitCount d.digits + 324) (hle : digitCount d.digits ≤ 309 + n)
    (hne : d.digits ≠ 0) (hscale : d.digits * one = x.units * Nat.pow 10 n) :
    ofDecimal? d = some x := by
  rw [ofDecimal?_of_neg hexp hn hgt hle hne, hneg, hscale]
  exact ofUnits?_units_mul_pow x n

/-- The exact value of a number is read as the number. Five to the power of 1074 has 751 digits,
one more than a decimal has that counts as zero. -/
theorem ofDecimal?_toDecimal {x : Binary64} (hx : x.significand ≠ 0) :
    ofDecimal? x.toDecimal = some x := by
  have hpos : 0 < decimalUnits := by decide +kernel
  have hlong : 750 < digitCount x.toDecimal.digits :=
    lt_digitCount_units_mul hx (by decide) (by decide +kernel)
  have hshort : digitCount x.toDecimal.digits ≤ 309 + 1074 :=
    digitCount_units_mul_le (by decide) x.exponent_le hpos (by decide +kernel)
  have hne : x.toDecimal.digits ≠ 0 := (Nat.mul_pos (units_pos hx) hpos).ne'
  have hscale : x.toDecimal.digits * one = x.units * Nat.pow 10 1074 := by
    rw [← decimalUnits_mul_one, ← Nat.mul_assoc]
    rfl
  have hnonzero : 1074 < digitCount x.toDecimal.digits + 324 := by omega
  exact ofDecimal?_of_scale rfl rfl (by decide) hnonzero hshort hne hscale

/-! ## Candidates -/

theorem nearest?_spec {tie : Tie} {readsBack : Decimal → Bool} {exact d : Decimal} {cut : Nat}
    (h : nearest? tie readsBack exact cut = some d) :
    d.negative = exact.negative ∧ readsBack d = true := by
  have key : ∀ pair : Decimal × Decimal, pair.1.negative = exact.negative →
      pair.2.negative = exact.negative →
      (if readsBack pair.1 = true then some pair.1
        else if readsBack pair.2 = true then some pair.2 else none) = some d →
      d.negative = exact.negative ∧ readsBack d = true := by
    intro pair hnear hfar hd
    split at hd
    · next hback =>
      cases hd
      exact ⟨hnear, hback⟩
    · split at hd
      · next hback =>
        cases hd
        exact ⟨hfar, hback⟩
      · cases hd
  -- whichever of the two neighbours is nearer, both have the sign of the exact value
  refine key _ ?_ ?_ h
  all_goals
    cases (if 2 * (exact.digits % Nat.pow 10 cut) = Nat.pow 10 cut then
      tie == .even && exact.digits / Nat.pow 10 cut % 2 == 0
      else decide (2 * (exact.digits % Nat.pow 10 cut) < Nat.pow 10 cut) : Bool) <;> rfl

theorem candidate?_spec {tie : Tie} {x : Binary64} {cut : Nat} {d : Decimal}
    (h : candidate? tie x cut = some d) : d.negative = x.negative ∧ ofDecimal? d = some x := by
  obtain ⟨hneg, hread⟩ := nearest?_spec h
  exact ⟨hneg, eq_of_beq hread⟩

theorem digits_ne_zero_of_ofDecimal? {x : Binary64} {d : Decimal} (hx : x.significand ≠ 0)
    (h : ofDecimal? d = some x) : d.digits ≠ 0 := by
  intro h0
  simp only [ofDecimal?, h0, if_true, Option.some.injEq] at h
  exact hx (h ▸ rfl)

/-- The shortest digits have the number's sign and are read as the number. -/
theorem shortest_spec (tie : Tie) {x : Binary64} (hx : x.significand ≠ 0) :
    (x.shortest tie).digits ≠ 0 ∧ (x.shortest tie).negative = x.negative ∧
      ofDecimal? (x.shortest tie) = some x := by
  have key : ∀ d : Decimal, d.negative = x.negative → ofDecimal? d = some x →
      d.normalize.digits ≠ 0 ∧ d.normalize.negative = x.negative ∧
        ofDecimal? d.normalize = some x := by
    intro d hneg hread
    obtain ⟨hne, hneg', hread'⟩ := ofDecimal?_normalize (digits_ne_zero_of_ofDecimal? hx hread)
    exact ⟨hne, hneg'.trans hneg, hread'.trans hread⟩
  rw [shortest]
  cases hfound : (List.range' 1 17).findSome? fun n =>
      candidate? tie x (digitCount x.toDecimal.digits - n) with
  -- no candidate reads back, so the exact value is taken
  | none => exact key x.toDecimal rfl (ofDecimal?_toDecimal hx)
  | some d =>
    obtain ⟨n, -, hn⟩ := List.exists_of_findSome?_eq_some hfound
    obtain ⟨hneg, hread⟩ := candidate?_spec hn
    exact key d hneg hread

end Screening.Number.Binary64
