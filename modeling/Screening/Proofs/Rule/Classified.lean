import Mathlib.Data.Nat.Cast.Field
import Screening.Proofs.Number.Scanned
import Screening.Proofs.Rule.Literal

/-!
# Classified numbers

The literal that a number should become by its exact value, and when it does. A number without a
point that fits in 64 bits is taken as it is. Every other number is rounded first and classified by
what it was rounded to.
-/

namespace Screening

open Number

namespace Literal

/-! ## Classes of values -/

/-- The value is an integer of 64 bits. -/
def IsInt64 (q : ℚ) : Prop := q.den = 1 ∧ fits64 q.num = true

instance (q : ℚ) : Decidable (IsInt64 q) := inferInstanceAs (Decidable (_ ∧ _))

/-- The literal of a value: an integer in the narrowest kind that holds it, and any other value as
the given number of binary64. -/
def classified (q : ℚ) (x : Binary64) : Literal :=
  if q.den = 1 ∧ fits32 q.num = true then .int32 (.ofInt q.num)
  else if IsInt64 q then .int64 (.ofInt q.num)
  else .float x

theorem isInt64_intCast {v : ℤ} : IsInt64 v ↔ fits64 v = true := by
  simp [IsInt64]

theorem IsInt64.exists_eq {q : ℚ} (h : IsInt64 q) : ∃ v : ℤ, q = v ∧ fits64 v = true :=
  ⟨q.num, (Rat.den_eq_one_iff q).1 h.1 |>.symm, h.2⟩

theorem classified_intCast {v : ℤ} (h : fits64 v = true) (x : Binary64) :
    classified v x = narrow (.ofInt v) := by
  have h64 : IsInt64 v := isInt64_intCast.2 h
  rw [classified, narrow, toInt_ofInt_of_fits64 h, if_pos h64]
  simp

theorem classified_of_not {q : ℚ} (h : ¬ IsInt64 q) (x : Binary64) : classified q x = .float x := by
  have h32 : ¬ (q.den = 1 ∧ fits32 q.num = true) := by
    intro hq
    exact h ⟨hq.1, fits64_of_fits32 hq.2⟩
  rw [classified, if_neg h32, if_neg h]

theorem narrow_ne_float (v : Int64) (x : Binary64) : narrow v ≠ .float x := by
  rw [narrow]
  split <;> simp

/-- Narrowing forgets nothing. -/
theorem narrow_injective {v w : ℤ} (hv : fits64 v = true) (hw : fits64 w = true)
    (h : narrow (.ofInt v) = narrow (.ofInt w)) : v = w := by
  have heq := congrArg toInt? h
  rw [toInt?_narrow hv, toInt?_narrow hw] at heq
  exact Option.some.inj heq

/-- Two values have the same literal exactly if they are equal or neither is an integer. -/
theorem classified_eq_iff {p q : ℚ} {x : Binary64} :
    classified p x = classified q x ↔ p = q ∨ ¬ IsInt64 q ∧ ¬ IsInt64 p := by
  by_cases hp : IsInt64 p
  · obtain ⟨v, rfl, hv⟩ := hp.exists_eq
    by_cases hq : IsInt64 q
    · obtain ⟨w, rfl, hw⟩ := hq.exists_eq
      rw [classified_intCast hv, classified_intCast hw]
      constructor
      · intro h
        left
        rw [narrow_injective hv hw h]
      · intro h
        rw [Rat.intCast_inj.1 (h.resolve_right fun hn => hn.1 hq)]
    · rw [classified_intCast hv, classified_of_not hq]
      constructor
      · intro h
        exact absurd h (narrow_ne_float _ x)
      · intro h
        rcases h with rfl | ⟨-, h⟩
        · exact absurd hp hq
        · exact absurd hp h
  · rw [classified_of_not hp]
    by_cases hq : IsInt64 q
    · obtain ⟨w, rfl, hw⟩ := hq.exists_eq
      rw [classified_intCast hw]
      constructor
      · intro h
        exact absurd h.symm (narrow_ne_float _ x)
      · intro h
        rcases h with rfl | ⟨h, -⟩
        · exact absurd hq hp
        · exact absurd hq h
    · rw [classified_of_not hq]
      exact ⟨fun _ => .inr ⟨hq, hp⟩, fun _ => rfl⟩

/-! ## Rounded numbers -/

theorem signed_eq_sign (negative : Bool) (n : ℕ) :
    ((signed negative n : ℤ) : ℚ) = sign negative * n := by
  cases negative <;> simp [signed, sign]

/-- The value of a number is the integer that it is said to be. -/
theorem toRat_of_toInt? {x : Binary64} {v : ℤ} (h : x.toInt? = some v) : x.toRat = v := by
  simp only [Binary64.toInt?] at h
  split at h
  · next hmod =>
    obtain rfl := Option.some.inj h
    have hdiv : ((x.units / Binary64.one : ℕ) : ℚ) = x.units / Binary64.one :=
      Nat.cast_div (Nat.dvd_of_mod_eq_zero hmod) Binary64.one_pos.ne'
    rw [signed_eq_sign, hdiv, Binary64.toRat]
  · cases h

/-- A number that is said to be no integer is none. -/
theorem toRat_ne_of_toInt? {x : Binary64} (h : x.toInt? = none) (v : ℤ) : x.toRat ≠ v := by
  simp only [Binary64.toInt?] at h
  split at h
  · cases h
  · next hmod =>
    intro hv
    have habs : (x.units : ℚ) / Binary64.one = v.natAbs := by
      have hnonneg : (0 : ℚ) ≤ x.units / Binary64.one :=
        div_nonneg (Nat.cast_nonneg _) Binary64.one_pos.le
      rw [← abs_of_nonneg hnonneg, Nat.cast_natAbs, Int.cast_abs, ← hv, Binary64.toRat, abs_mul,
        abs_sign, one_mul]
    rw [div_eq_iff Binary64.one_pos.ne'] at habs
    have hunits : x.units = v.natAbs * Binary64.one := by exact_mod_cast habs
    rw [hunits, Nat.mul_mod_left] at hmod
    exact hmod rfl

/-- A number of binary64 is classified by its own value. -/
theorem ofBinary64_eq (x : Binary64) : ofBinary64 x = classified x.toRat x := by
  rw [ofBinary64]
  split
  · next v hv =>
    rw [toRat_of_toInt? hv]
    split
    · next h => rw [classified_intCast h]
    · next h => rw [classified_of_not (isInt64_intCast.not.2 h)]
  · next hnone =>
    refine (classified_of_not ?_ x).symm
    intro h
    obtain ⟨v, hv, -⟩ := h.exists_eq
    exact toRat_ne_of_toInt? hnone v hv

/-! ## Texts -/

/-- An integer of 64 bits without a point is taken as it is. -/
theorem ofNumberText?_exact {n : Scanned} (hf : n.fraction = none) (h : IsInt64 n.value)
    (x : Binary64) : ofNumberText? n.text = some (classified n.value x) := by
  rw [Scanned.value_of_none hf] at h ⊢
  have hfits := isInt64_intCast.1 h
  rw [classified_intCast hfits, ofNumberText?, Scanned.text, String.toList_ofList,
    n.integer?_chars, if_pos hf, Option.filter_some, if_pos hfits]

/-- Every other number is rounded first. -/
theorem ofNumberText?_decimal {n : Scanned} (h : ¬ (n.fraction = none ∧ IsInt64 n.value)) :
    ofNumberText? n.text = (Binary64.ofDecimal? n.decimal).map ofBinary64 := by
  rw [ofNumberText?, Scanned.text, String.toList_ofList, n.integer?_chars, n.numeral?_chars]
  by_cases hf : n.fraction = none
  · have hfits : ¬ fits64 (signed n.negative (ofDigits n.whole)) = true := by
      intro hfits
      refine h ⟨hf, ?_⟩
      rw [Scanned.value_of_none hf]
      exact isInt64_intCast.2 hfits
    rw [if_pos hf, Option.filter_some, if_neg hfits]
  · rw [if_neg hf, Option.filter_none]

theorem ofNumberText?_rounded {n : Scanned} {x : Binary64}
    (h : ¬ (n.fraction = none ∧ IsInt64 n.value)) (hx : Binary64.ofDecimal? n.decimal = some x) :
    ofNumberText? n.text = some (classified x.toRat x) := by
  rw [ofNumberText?_decimal h, hx, Option.map_some, ofBinary64_eq]

theorem exists_isNearest {n : Scanned} (h : |n.value| < Binary64.overflow) :
    ∃ x, Binary64.ofDecimal? n.decimal = some x ∧ x.IsNearest n.value := by
  have hspec := Binary64.ofDecimal?_spec n.decimal
  rw [if_pos (show |n.decimal.toRat| < Binary64.overflow from h)] at hspec
  obtain ⟨x, hx, -, hnearest⟩ := hspec
  exact ⟨x, hx, hnearest⟩

theorem IsInt64.lt_overflow {q : ℚ} (h : IsInt64 q) : |q| < Binary64.overflow := by
  obtain ⟨v, rfl, hv⟩ := h.exists_eq
  have hbounds := fits64_iff.1 hv
  have habs : |(v : ℚ)| ≤ 2 ^ 63 := by
    rw [abs_le]
    constructor <;> exact_mod_cast (by omega)
  have hpow : (2 : ℚ) ^ 63 < 2 ^ 970 := pow_lt_pow_right₀ (by norm_num) (by norm_num)
  have hfactor : (1 : ℚ) ≤ 2 ^ 54 - 1 := by norm_num
  calc |(v : ℚ)| ≤ 2 ^ 63 := habs
    _ < 2 ^ 970 := hpow
    _ ≤ (2 ^ 54 - 1) * 2 ^ 970 := le_mul_of_one_le_left (by positivity) hfactor

/-- A number that has a value is its own nearest number. -/
theorem toRat_eq_of_exists {q : ℚ} {x : Binary64} (h : x.IsNearest q) :
    x.toRat = q ↔ ∃ y : Binary64, y.toRat = q := by
  constructor
  · intro hx
    exact ⟨x, hx⟩
  · intro hy
    obtain ⟨y, rfl⟩ := hy
    have hle := h.le y
    rw [sub_self, abs_zero] at hle
    exact (sub_eq_zero.1 (abs_nonpos_iff.1 hle)).symm

/-! ## Classification -/

/-- A text gives the literal of its exact value only if it is an integer of 64 bits without a
point, if binary64 holds the value, or if rounding neither starts nor ends at such an integer. -/
theorem ofNumberText?_eq_classified_iff {n : Scanned} {x : Binary64}
    (hx : Binary64.ofDecimal? n.decimal = some x) :
    ofNumberText? n.text = some (classified n.value x) ↔
      n.fraction = none ∧ IsInt64 n.value ∨ x.toRat = n.value ∨
        ¬ IsInt64 n.value ∧ ¬ IsInt64 x.toRat := by
  by_cases h : n.fraction = none ∧ IsInt64 n.value
  · exact ⟨fun _ => .inl h, fun _ => ofNumberText?_exact h.1 h.2 x⟩
  · rw [ofNumberText?_rounded h hx, Option.some_inj, classified_eq_iff, or_iff_right h]

/-- Zeros behind a point change the literal of an integer only where binary64 does not hold it. -/
theorem ofNumberText?_pointed_iff {n : Scanned} (zeros : ℕ) (hf : n.fraction = none)
    (h : |n.value| < Binary64.overflow) :
    ofNumberText? (n.pointed zeros).text = ofNumberText? n.text ↔
      (IsInt64 n.value → ∃ y : Binary64, y.toRat = n.value) := by
  have hvalue := Scanned.value_pointed zeros hf
  have hpoint : ¬ ((n.pointed zeros).fraction = none ∧ IsInt64 (n.pointed zeros).value) := by
    rintro ⟨h, -⟩
    cases h
  by_cases hint : IsInt64 n.value
  · obtain ⟨x, hx, hnearest⟩ := exists_isNearest (n := n.pointed zeros) (by rwa [hvalue])
    rw [hvalue] at hnearest
    rw [ofNumberText?_exact hf hint x, ofNumberText?_rounded hpoint hx, Option.some_inj,
      classified_eq_iff, toRat_eq_of_exists hnearest]
    simp [hint]
  · -- the digits differ, but not the number they are read as
    rw [ofNumberText?_decimal hpoint, ofNumberText?_decimal (fun h => hint h.2),
      Scanned.ofDecimal?_pointed zeros hf]
    simp [hint]

/-- The text of a number is classified by its exact value `q` as long as that needs no rounding.
In full: with `x` the number of binary64 nearest to `q`, the text gives the literal of `q` exactly
if it is an integer of 64 bits without a point, if `x` has the value `q`, or if neither `q` nor `x`
is an integer of 64 bits; in the remaining cases it gives the literal of `x`. And zeros behind a
point change nothing exactly if the integer does not fit in 64 bits or binary64 holds it. -/
theorem ofNumberText?_classified (n : Scanned) (h : |n.value| < Binary64.overflow) :
    ∃ x : Binary64, x.IsNearest n.value ∧
      (ofNumberText? n.text = some (classified n.value x) ↔
        n.fraction = none ∧ IsInt64 n.value ∨ x.toRat = n.value ∨
          ¬ IsInt64 n.value ∧ ¬ IsInt64 x.toRat) ∧
      (¬ (n.fraction = none ∧ IsInt64 n.value) →
        ofNumberText? n.text = some (classified x.toRat x)) ∧
      ∀ zeros, n.fraction = none →
        (ofNumberText? (n.text ++ "." ++ String.ofList (List.replicate zeros '0')) =
            ofNumberText? n.text ↔
          (IsInt64 n.value → ∃ y : Binary64, y.toRat = n.value)) := by
  obtain ⟨x, hx, hnearest⟩ := exists_isNearest h
  refine ⟨x, hnearest, ofNumberText?_eq_classified_iff hx,
    fun hn => ofNumberText?_rounded hn hx, ?_⟩
  intro zeros hf
  rw [← Scanned.text_pointed zeros hf]
  exact ofNumberText?_pointed_iff zeros hf h

/-- An integer with and without zeros behind a point. -/
theorem ofNumberText?_classified_seven :
    ∃ seven : Scanned, seven.fraction = none ∧ |seven.value| < Binary64.overflow ∧
      (∃ x : Binary64, x.IsNearest seven.value ∧
        ofNumberText? seven.text = some (classified seven.value x)) ∧
      ofNumberText? (seven.text ++ "." ++ String.ofList (List.replicate 2 '0')) =
        ofNumberText? seven.text := by
  have hseven : ∀ c ∈ ['7'], c.isDigit = true := List.forall_mem_singleton.2 rfl
  let seven : Scanned := ⟨false, ['7'], none, ⟨List.cons_ne_nil _ _, hseven⟩, by simp⟩
  have hvalue : seven.value = (7 : ℤ) := Scanned.value_of_none rfl
  have hint : IsInt64 seven.value := by
    rw [hvalue]
    exact isInt64_intCast.2 rfl
  obtain ⟨x, hnearest, hiff, -, hzeros⟩ := ofNumberText?_classified seven hint.lt_overflow
  refine ⟨seven, rfl, hint.lt_overflow, ⟨x, hnearest, hiff.2 (.inl ⟨rfl, hint⟩)⟩, ?_⟩
  refine (hzeros 2 rfl).2 fun _ => ?_
  let y : Binary64 := ⟨false, 7 * 2 ^ 50, 1024, by decide, by decide, .inr (by decide)⟩
  have hy : y.toInt? = some 7 := by decide +kernel
  exact ⟨y, (toRat_of_toInt? hy).trans hvalue.symm⟩

/-- With a point, an odd integer above `2 ^ 53` is rounded to its even neighbour. -/
theorem ofNumberText?_odd :
    ∃ n : Scanned, n.text = "9007199254740993.0" ∧ n.value = (9007199254740993 : ℤ) ∧
      ofNumberText? n.text = some (.int64 9007199254740992) ∧
      ofNumberText? "9007199254740993" = some (.int64 9007199254740993) := by
  have hdigits : ∀ c ∈ "9007199254740993".toList, c.isDigit = true :=
    List.all_eq_true.1 (by decide)
  let odd : Scanned := ⟨false, "9007199254740993".toList, none, ⟨by decide, hdigits⟩, by simp⟩
  have htext : (odd.pointed 1).text = "9007199254740993.0" := rfl
  have hread : ofNumberText? "9007199254740993.0" = some (.int64 9007199254740992) := by
    decide +kernel
  refine ⟨odd.pointed 1, htext, ?_, htext ▸ hread, by decide +kernel⟩
  rw [Scanned.value_pointed 1 rfl]
  exact Scanned.value_of_none rfl

end Literal

end Screening
