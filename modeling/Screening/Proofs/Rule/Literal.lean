import Screening.Proofs.Number.Layout
import Screening.Rule.Literal

/-!
# Canonical literals

A literal is canonical if no narrower kind holds its value. Reading the text of a number gives
canonical literals only, and reading the canonical text of one gives it back.
-/

namespace Screening.Literal

open Number

/-- No narrower kind of literal holds the value: 64 bits are needed for an integer of 64 bits,
and a binary64 number is no integer of 64 bits. -/
def Canonical : Literal → Prop
  | .int64 v => fits32 v.toInt = false
  | .float x => ∀ v, x.toInt? = some v → fits64 v = false
  | _ => True

/-- A string that some sort of quotes can be put around: it does not contain both. -/
def Quotable : Literal → Prop
  | .string s => ¬ ('\x27' ∈ s.toList ∧ '"' ∈ s.toList)
  | _ => True

/-! ## Ranges -/

theorem fits32_iff {v : Int} : fits32 v = true ↔ -2 ^ 31 ≤ v ∧ v < 2 ^ 31 := by
  simp only [fits32, Bool.and_eq_true, decide_eq_true_eq]
  omega

theorem fits64_iff {v : Int} : fits64 v = true ↔ -2 ^ 63 ≤ v ∧ v < 2 ^ 63 := by
  simp only [fits64, Bool.and_eq_true, decide_eq_true_eq]
  omega

theorem fits64_int64 (v : Int64) : fits64 v.toInt = true :=
  fits64_iff.2 ⟨v.le_toInt, v.toInt_lt⟩

theorem fits32_int32 (v : Int32) : fits32 v.toInt = true :=
  fits32_iff.2 ⟨v.le_toInt, v.toInt_lt⟩

theorem fits64_of_fits32 {v : Int} (h : fits32 v = true) : fits64 v = true := by
  have := fits32_iff.1 h
  rw [fits64_iff]
  omega

theorem toInt_ofInt_of_fits32 {v : Int} (h : fits32 v = true) : (Int32.ofInt v).toInt = v :=
  Int32.toInt_ofInt_of_le (fits32_iff.1 h).1 (fits32_iff.1 h).2

theorem toInt_ofInt_of_fits64 {v : Int} (h : fits64 v = true) : (Int64.ofInt v).toInt = v :=
  Int64.toInt_ofInt_of_le (fits64_iff.1 h).1 (fits64_iff.1 h).2

/-! ## Narrowing -/

/-- The value of an integer. -/
def toInt? : Literal → Option Int
  | .int32 v => some v.toInt
  | .int64 v => some v.toInt
  | _ => none

/-- Narrowing keeps the value. -/
theorem toInt?_narrow {v : Int} (h : fits64 v = true) : (narrow (.ofInt v)).toInt? = some v := by
  rw [narrow, toInt_ofInt_of_fits64 h]
  split
  · next h32 => rw [toInt?, toInt_ofInt_of_fits32 h32]
  · rw [toInt?, toInt_ofInt_of_fits64 h]

theorem canonical_narrow (v : Int64) : (narrow v).Canonical := by
  rw [narrow]
  split
  · trivial
  · next h => simpa [Canonical] using h

theorem canonical_ofBinary64 (x : Binary64) : (ofBinary64 x).Canonical := by
  rw [ofBinary64]
  split
  · next v hv =>
    split
    · exact canonical_narrow _
    · next h =>
      intro w hw
      rw [hv] at hw
      cases hw
      simpa using h
  · next hnone =>
    intro w hw
    rw [hnone] at hw
    cases hw

/-- Reading a number's text gives a canonical literal. -/
theorem canonical_of_ofNumberText? {text : String} {v : Literal}
    (h : ofNumberText? text = some v) : v.Canonical := by
  simp only [ofNumberText?] at h
  split at h
  · cases h
    exact canonical_narrow _
  · split at h
    · obtain ⟨x, -, rfl⟩ := Option.map_eq_some_iff.1 h
      exact canonical_ofBinary64 x
    · cases h

/-- Reading a number's text never gives a string. -/
theorem ofNumberText?_ne_string {text s : String} : ofNumberText? text ≠ some (.string s) := by
  have hnarrow : ∀ v, narrow v ≠ .string s := by
    intro v
    rw [narrow]
    split <;> simp
  intro h
  simp only [ofNumberText?] at h
  split at h
  · exact hnarrow _ (Option.some.inj h)
  · split at h
    · obtain ⟨x, -, hx⟩ := Option.map_eq_some_iff.1 h
      rw [ofBinary64] at hx
      split at hx
      · split at hx
        · exact hnarrow _ hx
        · cases hx
      · cases hx
    · cases h

/-! ## Reading back -/

theorem ofNumberText?_repr {v : Int} (h : fits64 v = true) :
    ofNumberText? v.repr = some (narrow (.ofInt v)) := by
  simp [ofNumberText?, integer?_repr, Option.filter, h]

theorem narrow_int32 (v : Int32) : narrow (.ofInt v.toInt) = .int32 v := by
  rw [narrow, toInt_ofInt_of_fits64 (fits64_of_fits32 (fits32_int32 v)), if_pos (fits32_int32 v),
    Int32.ofInt_toInt]

theorem narrow_int64 {v : Int64} (h : (Literal.int64 v).Canonical) :
    narrow (.ofInt v.toInt) = .int64 v := by
  have hf : fits32 v.toInt = false := h
  rw [Int64.ofInt_toInt, narrow, hf]
  rfl

theorem ofBinary64_float {x : Binary64} (h : (Literal.float x).Canonical) :
    ofBinary64 x = .float x := by
  rw [ofBinary64]
  split
  · next v hv => rw [h v hv, if_neg Bool.false_ne_true]
  · rfl

/-- Zero is an integer. -/
theorem significand_ne_zero {x : Binary64} (h : (Literal.float x).Canonical) :
    x.significand ≠ 0 := by
  intro h0
  have hunits : x.units = 0 := by rw [Binary64.units, h0, Nat.zero_mul]
  have hint : x.toInt? = some (signed x.negative 0) := by simp [Binary64.toInt?, hunits]
  have hzero : ∀ negative, fits64 (signed negative 0) = true := by decide
  have := hzero x.negative
  rw [h _ hint] at this
  cases this

/-- A canonical number is read back from its text, which is shaped like a number's. -/
theorem ofNumberText?_float {x : Binary64} (h : (Literal.float x).Canonical) :
    ofNumberText? (Literal.float x).text = some (.float x) ∧
      NumberShape (Literal.float x).text.toList := by
  obtain ⟨whole, fraction, htext, hw, hf, hread⟩ :=
    Binary64.write_spec numberStyle (fun _ => rfl) (significand_ne_zero h)
  obtain ⟨hint, hnum⟩ := numeral?_point x.negative hw hf.isDigit
  rw [text, htext]
  refine ⟨?_, .point _ hw hf⟩
  rw [ofNumberText?, htext, hint, Option.filter_none]
  simp only [hnum, hread, Option.map_some, ofBinary64_float h]

end Screening.Literal
