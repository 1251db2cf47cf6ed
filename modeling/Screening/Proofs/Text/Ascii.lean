import Screening.Text.Ascii
import Screening.Token.Lexeme

/-!
# Character classes

The characters of a lexeme are ASCII characters, and what is said of the classes they fall into
is settled character by character.
-/

namespace Screening.Text

/-- What holds of the ASCII characters of a class one by one holds of every such character. -/
theorem forall_ascii {p q : Char → Bool}
    (h : ∀ n < 128, p (Char.ofNat n) = true → q (Char.ofNat n) = true) {c : Char}
    (hc : c.toNat < 128) (hp : p c = true) : q c = true := by
  have := h c.toNat hc
  rw [Char.ofNat_toNat] at this
  exact this hp

theorem toNat_lt_of_isDigit {c : Char} (h : c.isDigit = true) : c.toNat < 128 := by
  simp only [Char.isDigit, Bool.and_eq_true, decide_eq_true_eq, ge_iff_le,
    UInt32.le_iff_toNat_le] at h
  exact Nat.lt_of_le_of_lt h.2 (by decide)

theorem toNat_lt_of_isAlpha {c : Char} (h : c.isAlpha = true) : c.toNat < 128 := by
  have h : (c.isUpper || c.isLower) = true := h
  rcases Bool.or_eq_true_iff.1 h with h | h
  · have hz : c.val ≤ 'Z'.val := (of_decide_eq_true h).2
    exact Nat.lt_of_le_of_lt (UInt32.le_iff_toNat_le.1 hz) (by decide)
  · have h : (decide ('a'.val ≤ c.val) && decide (c.val ≤ 'z'.val)) = true := h
    have hz : c.val ≤ 'z'.val := of_decide_eq_true (Bool.and_eq_true_iff.1 h).2
    exact Nat.lt_of_le_of_lt (UInt32.le_iff_toNat_le.1 hz) (by decide)

theorem toNat_lt_of_isLower {c : Char} (h : c.isLower = true) : c.toNat < 128 :=
  toNat_lt_of_isAlpha (Bool.or_eq_true_iff.2 (.inr h))

theorem toNat_lt_of_isWordPart {c : Char} (h : isWordPart c = true) : c.toNat < 128 := by
  simp only [isWordPart, Char.isAlphanum, Bool.or_eq_true, beq_iff_eq] at h
  rcases h with (h | h) | rfl
  · exact toNat_lt_of_isAlpha h
  · exact toNat_lt_of_isDigit h
  · decide

/-! ## Upper case -/

/-- Only small letters change. -/
theorem toUpper_of_not_isLower {c : Char} (h : ¬c.isLower = true) : c.toUpper = c := by
  refine dif_neg fun hc => h ?_
  exact Bool.and_eq_true_iff.2 ⟨decide_eq_true hc.1, decide_eq_true hc.2⟩

/-! ## Digits -/

/-- What is needed of a digit: it begins and ends no other lexeme and has no case. -/
structure DigitFacts (c : Char) : Prop where
  toUpper : c.toUpper = c
  toLower : c.toLower = c
  ne_minus : c ≠ '-'
  ne_plus : c ≠ '+'
  ne_point : c ≠ '.'
  isSpace : isSpace c = false

theorem digitFacts {c : Char} (h : c.isDigit = true) : DigitFacts c := by
  have key := forall_ascii (p := Char.isDigit) (q := fun c => c.toUpper == c && c.toLower == c &&
    c != '-' && c != '+' && c != '.' && !isSpace c) (by decide) (toNat_lt_of_isDigit h) h
  simp only [Bool.and_eq_true, beq_iff_eq, bne_iff_ne, Bool.not_eq_true'] at key
  obtain ⟨⟨⟨⟨⟨hu, hl⟩, hm⟩, hp⟩, hd⟩, hs⟩ := key
  exact ⟨hu, hl, hm, hp, hd, hs⟩

/-! ## Runs of a class -/

/-- A run of characters of a class ends where the next character is of another class. -/
theorem span_stop {p : Char → Bool} {xs rest : List Char} (hxs : ∀ c ∈ xs, p c = true)
    (hrest : ∀ c ∈ rest.head?, p c = false) :
    (xs ++ rest).takeWhile p = xs ∧ (xs ++ rest).dropWhile p = rest := by
  rw [List.takeWhile_append_of_pos hxs, List.dropWhile_append_of_pos hxs]
  cases rest with
  | nil => simp
  | cons c rest => simp [hrest c rfl]

/-! ## Delimiters -/

/-- A character that ends every number and every word. -/
def isDelimiter (c : Char) : Bool := c == ' ' || c == '(' || c == ')'

/-- The text is over or goes on with a delimiter. -/
def Delimited (cs : List Char) : Prop := ∀ c ∈ cs.head?, isDelimiter c = true

theorem Delimited.nil : Delimited [] := by simp [Delimited]

theorem delimited_cons {c cs} : Delimited (c :: cs) ↔ isDelimiter c = true := by
  simp [Delimited]

end Screening.Text
