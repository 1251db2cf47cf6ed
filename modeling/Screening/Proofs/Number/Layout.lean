import Mathlib.Data.List.TakeWhile
import Screening.Number.Numeral
import Screening.Proofs.Number.ReadBack
import Screening.Proofs.Text.Ascii

/-!
# Texts of numbers

An integer is written as a sign and digits, a binary64 number that is laid out positionally as a
sign, digits, a point and digits. Both texts are numerals, and the numeral stands for the number.
-/

namespace Screening.Number

/-! ## Signs and digits -/

/-- The sign in front of a number. -/
def signText (negative : Bool) : List Char := if negative then ['-'] else []

/-- All characters are digits, and there is one at least. -/
structure IsDigits (cs : List Char) : Prop where
  ne_nil : cs ≠ []
  isDigit : ∀ c ∈ cs, c.isDigit = true

theorem isDigits_iff {cs : List Char} : IsDigits cs ↔ cs ≠ [] ∧ ∀ c ∈ cs, c.isDigit = true :=
  ⟨fun h => ⟨h.ne_nil, h.isDigit⟩, fun h => ⟨h.1, h.2⟩⟩

theorem isDigits_toDigits (n : Nat) : IsDigits (Nat.toDigits 10 n) :=
  ⟨Nat.toDigits_ne_nil, fun _ => Nat.isDigit_of_mem_toDigits (by decide) (by decide)⟩

theorem IsDigits.cons {cs : List Char} (h : IsDigits cs) :
    ∃ c rest, cs = c :: rest ∧ c.isDigit = true := by
  obtain ⟨c, rest, rfl⟩ := List.exists_cons_of_ne_nil h.ne_nil
  exact ⟨c, rest, rfl, h.isDigit c (by simp)⟩

theorem IsDigits.append {cs ds : List Char} (h : IsDigits cs) (hd : ∀ c ∈ ds, c.isDigit = true) :
    IsDigits (cs ++ ds) := by
  refine ⟨by simp [h.ne_nil], fun c hc => ?_⟩
  rcases List.mem_append.1 hc with hc | hc
  · exact h.isDigit c hc
  · exact hd c hc

theorem digit_le {c : Char} (h : c.isDigit = true) : c.toNat - '0'.toNat ≤ 9 := by
  simp only [Char.isDigit, Bool.and_eq_true, decide_eq_true_eq] at h
  have hle : c.toNat ≤ '9'.toNat := h.2
  have hzero : '0'.toNat = 48 := rfl
  have hnine : '9'.toNat = 57 := rfl
  omega

theorem ofDigitChars_eq (cs : List Char) (n : Nat) :
    Nat.ofDigitChars 10 cs n = n * 10 ^ cs.length + ofDigits cs := by
  rw [Nat.ofDigitChars_eq_ofDigitChars_zero, Nat.mul_comm, ofDigits]

theorem ofDigits_append (cs ds : List Char) :
    ofDigits (cs ++ ds) = ofDigits cs * 10 ^ ds.length + ofDigits ds := by
  show Nat.ofDigitChars 10 (cs ++ ds) 0 = _
  rw [Nat.ofDigitChars_append, ofDigitChars_eq]
  rfl

theorem ofDigits_lt {cs : List Char} (h : ∀ c ∈ cs, c.isDigit = true) :
    ofDigits cs < 10 ^ cs.length := by
  induction cs with
  | nil => exact Nat.one_pos
  | cons c cs ih =>
    obtain ⟨hc, hcs⟩ := List.forall_mem_cons.1 h
    have hsplit := ofDigits_append [c] cs
    have hdigit : ofDigits [c] ≤ 9 := by
      rw [ofDigits, Nat.ofDigitChars_cons, Nat.ofDigitChars_nil, Nat.mul_zero, Nat.zero_add]
      exact digit_le hc
    have hfirst := Nat.mul_le_mul_right (10 ^ cs.length) hdigit
    have hrest := ih hcs
    rw [List.singleton_append] at hsplit
    rw [hsplit, List.length_cons, Nat.pow_succ]
    omega

/-- Digits that do not begin with zero are more than nothing. -/
theorem IsDigits.one_le {cs : List Char} (h : IsDigits cs) (hzero : cs.head? ≠ some '0') :
    1 ≤ ofDigits cs := by
  obtain ⟨c, rest, rfl, hc⟩ := h.cons
  have hne : c.toNat ≠ '0'.toNat := fun heq => hzero (congrArg some (Char.toNat_inj.1 heq))
  simp only [Char.isDigit, Bool.and_eq_true, decide_eq_true_eq] at hc
  have hle : '0'.toNat ≤ c.toNat := hc.1
  have hfirst : 1 ≤ c.toNat - '0'.toNat := by omega
  rw [ofDigits, Nat.ofDigitChars_cons, Nat.mul_zero, Nat.zero_add, ofDigitChars_eq]
  exact (Nat.le_mul_of_pos_right _ (Nat.pow_pos (by decide))).trans' hfirst |>.trans
    (Nat.le_add_right _ _)

/-- A zero in front of other digits is missing: one at the front stands alone. -/
def Unpadded (cs : List Char) : Prop := cs.head? = some '0' → cs.length = 1

theorem head?_toDigits_ne {n : Nat} (hn : n ≠ 0) : (Nat.toDigits 10 n).head? ≠ some '0' := by
  induction n using Nat.strongRecOn with
  | ind n ih =>
    by_cases hlt : n < 10
    · rw [Nat.toDigits_of_lt_base hlt]
      simpa using hn
    · -- the first digit is that of the number without its last one
      have hdiv : n / 10 ≠ 0 := by omega
      obtain ⟨c, rest, hc⟩ := List.exists_cons_of_ne_nil (Nat.toDigits_ne_nil (b := 10) (n := n / 10))
      have hne := ih (n / 10) (by omega) hdiv
      rw [hc] at hne
      rw [Nat.toDigits_of_base_le (by decide) (by omega), hc]
      exact hne

theorem unpadded_toDigits (n : Nat) : Unpadded (Nat.toDigits 10 n) := by
  intro h
  by_cases hn : n = 0
  · rw [hn, Nat.toDigits_zero]
    rfl
  · exact absurd h (head?_toDigits_ne hn)

/-- What the text of a number looks like: a sign and digits, or a sign, digits, a point and
digits. -/
inductive NumberShape : List Char → Prop
  | whole (negative : Bool) {digits : List Char} : IsDigits digits →
      NumberShape (signText negative ++ digits)
  | point (negative : Bool) {whole fraction : List Char} : IsDigits whole → IsDigits fraction →
      NumberShape (signText negative ++ (whole ++ '.' :: fraction))

theorem takeSign_signText (negative : Bool) {cs : List Char} (h : IsDigits cs)
    (rest : List Char) :
    takeSign (signText negative ++ (cs ++ rest)) = (negative, cs ++ rest) := by
  obtain ⟨c, ds, rfl, hc⟩ := h.cons
  have hf := Text.digitFacts hc
  cases negative with
  | true => rfl
  | false =>
    simp only [signText, Bool.false_eq_true, if_false, List.nil_append, List.cons_append, takeSign]
    split
    · next heq => exact absurd (List.cons.inj heq).1 hf.ne_minus
    · next heq => exact absurd (List.cons.inj heq).1 hf.ne_plus
    · rfl

/-! ## Integers -/

theorem signed_natAbs (v : Int) : signed (decide (v < 0)) v.natAbs = v := by
  simp only [signed]
  by_cases h : v < 0
  · simp only [h, decide_true, if_true]
    omega
  · simp only [h, decide_false, Bool.false_eq_true, if_false]
    omega

theorem toList_repr (v : Int) :
    v.repr.toList = signText (decide (v < 0)) ++ Nat.toDigits 10 v.natAbs := by
  cases v with
  | ofNat n => simp [Int.repr, signText]
  | negSucc n => simp [Int.repr, signText, Int.negSucc_lt_zero]

theorem numberShape_repr (v : Int) : NumberShape v.repr.toList := by
  rw [toList_repr]
  exact .whole _ (isDigits_toDigits _)

/-- An integer is a sign or none and digits. -/
theorem integer?_eq_some {cs : List Char} {v : Int} :
    integer? cs = some v ↔ ∃ negative digits, takeSign cs = (negative, digits) ∧
      IsDigits digits ∧ signed negative (ofDigits digits) = v := by
  rcases hsign : takeSign cs with ⟨negative, digits⟩
  have hdigits : (digits.isEmpty || !digits.all Char.isDigit) = false ↔ IsDigits digits := by
    simp [isDigits_iff]
  simp only [integer?, hsign]
  split
  · next hnot =>
    constructor
    · intro h
      cases h
    · intro h
      obtain ⟨_, _, heq, hd, -⟩ := h
      cases heq
      rw [hdigits.2 hd] at hnot
      cases hnot
  · next hall =>
    have hd : IsDigits digits := hdigits.1 (Bool.eq_false_iff.2 hall)
    constructor
    · intro h
      exact ⟨negative, digits, rfl, hd, Option.some.inj h⟩
    · intro h
      obtain ⟨_, _, heq, -, rfl⟩ := h
      cases heq
      rfl

/-- An integer is read back from its text. -/
theorem integer?_repr (v : Int) : integer? v.repr.toList = some v := by
  have hd := isDigits_toDigits v.natAbs
  have hsign := takeSign_signText (decide (v < 0)) hd []
  rw [List.append_nil] at hsign
  refine integer?_eq_some.2 ⟨_, _, by rw [toList_repr, hsign], hd, ?_⟩
  rw [ofDigits_toDigits, signed_natAbs]

/-! ## Numbers with a point -/

theorem not_specialWords {cs : List Char} (h : IsDigits cs) (rest : List Char) :
    specialWords.contains ((cs ++ rest).map Char.toLower) = false := by
  obtain ⟨c, ds, rfl, hc⟩ := h.cons
  have hne : ∀ a : Char, a.isDigit = false → (a == c) = false := by
    intro a ha
    refine beq_eq_false_iff_ne.2 ?_
    rintro rfl
    rw [hc] at ha
    cases ha
  have hi := hne 'i' (by decide)
  have hn := hne 'n' (by decide)
  simp only [beq_eq_false_iff_ne] at hi hn
  simp [specialWords, (Text.digitFacts hc).toLower, hi.symm, hn.symm]

/-- A sign or none and digits are a numeral. -/
theorem numeral?_digits {cs digits : List Char} {negative : Bool}
    (hsign : takeSign cs = (negative, digits)) (hd : IsDigits digits) :
    numeral? cs = some (.decimal (.ofParts negative digits [] 0)) := by
  have hspecial := not_specialWords hd []
  have htake := List.takeWhile_eq_self_iff.2 hd.isDigit
  have hdrop := List.dropWhile_eq_nil_iff.2 hd.isDigit
  rw [List.append_nil] at hspecial
  rw [numeral?, hsign]
  simp only [hspecial, htake, hdrop, takeFraction, exponent?]
  simp [hd.ne_nil]

/-- Digits, a point and digits or none are a numeral and no integer. -/
theorem numeral?_point (negative : Bool) {whole fraction : List Char} (hw : IsDigits whole)
    (hf : ∀ c ∈ fraction, c.isDigit = true) :
    integer? (signText negative ++ (whole ++ '.' :: fraction)) = none ∧
      numeral? (signText negative ++ (whole ++ '.' :: fraction)) =
        some (.decimal (.ofParts negative whole fraction 0)) := by
  have hsign := takeSign_signText negative hw ('.' :: fraction)
  have hpoint : Char.isDigit '.' = false := by decide
  refine ⟨?_, ?_⟩
  · rw [integer?, hsign]
    simp [hpoint]
  · have htake : (whole ++ '.' :: fraction).takeWhile Char.isDigit = whole := by
      rw [List.takeWhile_append_of_pos hw.isDigit]
      simp [hpoint]
    have hdrop : (whole ++ '.' :: fraction).dropWhile Char.isDigit = '.' :: fraction := by
      rw [List.dropWhile_append_of_pos hw.isDigit]
      simp [hpoint]
    have hfraction : takeFraction ('.' :: fraction) = (fraction, []) := by
      rw [takeFraction, List.takeWhile_eq_self_iff.2 hf, List.dropWhile_eq_nil_iff.2 hf]
    rw [numeral?, hsign]
    simp only [not_specialWords hw, htake, hdrop, hfraction, exponent?]
    simp [hw.ne_nil]

/-! ## Positional layout -/

namespace Binary64

theorem ofDigits_append_zeros (cs : List Char) (k : Nat) :
    ofDigits (cs ++ List.replicate k '0') = ofDigits cs * 10 ^ k := by
  rw [ofDigits, Nat.ofDigitChars_append, Nat.ofDigitChars_replicate_zero, Nat.mul_comm]
  rfl

theorem ofDigits_zeros_append (cs : List Char) (k : Nat) :
    ofDigits (List.replicate k '0' ++ cs) = ofDigits cs := by
  rw [ofDigits, Nat.ofDigitChars_append, Nat.ofDigitChars_replicate_zero, Nat.mul_zero]
  rfl

/-- Digits that are laid out positionally are digits, a point and digits of the same value. -/
theorem layPositional_spec (negative : Bool) {n : Nat} (hn : n ≠ 0) (e : Int) :
    ∃ whole fraction, layPositional (Nat.toDigits 10 n) e = whole ++ '.' :: fraction ∧
      IsDigits whole ∧ Unpadded whole ∧ IsDigits fraction ∧
      ofDecimal? (.ofParts negative whole fraction 0) = ofDecimal? ⟨negative, n, e⟩ := by
  have hd := isDigits_toDigits n
  have hzeros : ∀ k, ∀ c ∈ List.replicate k '0', c.isDigit = true := by
    intro k c hc
    rw [List.eq_of_mem_replicate hc]
    decide
  by_cases he : 0 ≤ e
  · refine ⟨Nat.toDigits 10 n ++ List.replicate e.toNat '0', ['0'], by simp [layPositional, he],
      hd.append (hzeros _), ?_, ⟨by simp, hzeros 1⟩, ?_⟩
    · obtain ⟨c, rest, hc⟩ := List.exists_cons_of_ne_nil hd.ne_nil
      have hne := head?_toDigits_ne hn
      rw [hc] at hne ⊢
      exact fun h => absurd h hne
    · have hdigits : ofDigits (Nat.toDigits 10 n ++ List.replicate e.toNat '0' ++ ['0']) =
          n * 10 ^ (e.toNat + 1) := by
        rw [List.append_assoc, ← List.replicate_succ', ofDigits_append_zeros, ofDigits_toDigits]
      have hexp : (0 : Int) - (['0'].length : Nat) + (e.toNat + 1 : Nat) = e := by
        simp only [List.length_singleton]
        omega
      rw [Decimal.ofParts, hdigits, ofDecimal?_mul_pow negative hn, hexp]
  · -- the digits are padded so that one at least stands before the point
    let places := (-e).toNat
    let padded := List.replicate (places + 1 - (Nat.toDigits 10 n).length) '0' ++ Nat.toDigits 10 n
    have hlen : places + 1 ≤ padded.length := by
      simp only [padded, List.length_append, List.length_replicate]
      omega
    have hplaces : 0 < places := by
      simp only [places]
      omega
    have hpadded : ∀ c ∈ padded, c.isDigit = true := by
      intro c hc
      rcases List.mem_append.1 hc with hc | hc
      · exact hzeros _ c hc
      · exact hd.isDigit c hc
    refine ⟨padded.take (padded.length - places), padded.drop (padded.length - places),
      by simp [layPositional, he, padded, places], ⟨?_, ?_⟩, ?_, ⟨?_, ?_⟩, ?_⟩
    · rw [← List.length_pos_iff, List.length_take]
      omega
    · exact fun c hc => hpadded c (List.mem_of_mem_take hc)
    · intro hzero
      -- where digits were padded one alone stands before the point
      by_cases hshort : (Nat.toDigits 10 n).length ≤ places
      · simp only [padded, List.length_take, List.length_append, List.length_replicate]
        omega
      · have hfull : padded = Nat.toDigits 10 n := by
          rw [show padded = List.replicate (places + 1 - (Nat.toDigits 10 n).length) '0' ++
            Nat.toDigits 10 n from rfl, Nat.sub_eq_zero_of_le (Nat.lt_of_not_le hshort)]
          rfl
        rw [hfull, List.head?_take, if_neg (by omega)] at hzero
        exact absurd hzero (head?_toDigits_ne hn)
    · rw [← List.length_pos_iff, List.length_drop]
      omega
    · exact fun c hc => hpadded c (List.mem_of_mem_drop hc)
    · have hexp : (0 : Int) - ((padded.length - (padded.length - places) : Nat) : Int) = e := by
        simp only [places] at hlen ⊢
        omega
      rw [Decimal.ofParts, List.take_append_drop, List.length_drop, hexp, ofDigits_zeros_append,
        ofDigits_toDigits]

/-- A decimal other than zero that is written without an exponent is its sign, digits, a point
and digits, and these have its value. -/
theorem layOut_spec {style : NumberStyle} (hstyle : ∀ e, style.positional e = true) {d : Decimal}
    (hd : d.digits ≠ 0) :
    ∃ whole fraction, (layOut style d).toList = signText d.negative ++ (whole ++ '.' :: fraction) ∧
      IsDigits whole ∧ IsDigits fraction ∧
      ofDecimal? (.ofParts d.negative whole fraction 0) = ofDecimal? d := by
  obtain ⟨whole, fraction, hlay, hw, -, hf, hval⟩ := layPositional_spec d.negative hd d.exponent
  refine ⟨whole, fraction, ?_, hw, hf, hval⟩
  simp only [layOut, hstyle, if_true, hlay, String.toList_ofList, signText]
  split <;> rfl

/-- The text of a number other than zero that has no exponent reads back as the number. -/
theorem write_spec (style : NumberStyle) (hstyle : ∀ e, style.positional e = true)
    {x : Binary64} (hx : x.significand ≠ 0) :
    ∃ whole fraction, (x.write style).toList = signText x.negative ++ (whole ++ '.' :: fraction) ∧
      IsDigits whole ∧ IsDigits fraction ∧
      ofDecimal? (.ofParts x.negative whole fraction 0) = some x := by
  obtain ⟨hne, hneg, hread⟩ := shortest_spec style.tie hx
  obtain ⟨whole, fraction, htext, hw, hf, hval⟩ := layOut_spec hstyle hne
  rw [hneg] at htext hval
  exact ⟨whole, fraction, htext, hw, hf, hval.trans hread⟩

end Binary64

end Screening.Number
