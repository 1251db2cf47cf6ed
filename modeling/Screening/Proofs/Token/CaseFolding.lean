import Screening.Proofs.Token.Coverage
import Screening.Proofs.Token.Raised

/-!
# Text in upper case

Lexemes are found in a text in upper case where they are found in the text itself, and they are the
same but for their case. So the tokens are the same as well, unless there are strings that keep their
case.
-/

namespace Screening

namespace Text

/-! ## Characters -/

/-- No class that matters to the scanner tells the cases apart. -/
structure CaseFacts (c : Char) : Prop where
  isDigit : c.toUpper.isDigit = c.isDigit
  isWordStart : isWordStart c.toUpper = isWordStart c
  isWordPart : isWordPart c.toUpper = isWordPart c
  isSpace : isSpace c.toUpper = isSpace c
  isBlank : isBlank c.toUpper = isBlank c

theorem caseFacts (c : Char) : CaseFacts c := by
  by_cases h : c.isLower = true
  · have key := forall_ascii (p := Char.isLower) (q := fun c => c.toUpper.isDigit == c.isDigit &&
      isWordStart c.toUpper == isWordStart c && isWordPart c.toUpper == isWordPart c &&
      isSpace c.toUpper == isSpace c && isBlank c.toUpper == isBlank c) (by decide)
      (toNat_lt_of_isLower h) h
    simp only [Bool.and_eq_true, beq_iff_eq] at key
    obtain ⟨⟨⟨⟨hd, hs⟩, hp⟩, hspace⟩, hb⟩ := key
    exact ⟨hd, hs, hp, hspace, hb⟩
  · have hsame := toUpper_of_not_isLower h
    constructor <;> rw [hsame]

theorem isWordStart_of_isLower {c : Char} (h : c.isLower = true) : isWordStart c = true := by
  have halpha : c.isAlpha = true := Bool.or_eq_true_iff.2 (.inr h)
  rw [isWordStart, halpha, Bool.true_or]

/-- Only letters become letters. -/
theorem toUpper_eq_iff {c d : Char} (hd : isWordStart d = false) : c.toUpper = d ↔ c = d := by
  by_cases h : c.isLower = true
  · -- both sides are false, for the character is a letter in either case
    have hstart := isWordStart_of_isLower h
    constructor
    · rintro rfl
      rw [(caseFacts c).isWordStart, hstart] at hd
      cases hd
    · rintro rfl
      rw [hstart] at hd
      cases hd
  · rw [toUpper_of_not_isLower h]

theorem beq_toUpper {c d : Char} (hd : isWordStart d = false) : (c.toUpper == d) = (c == d) := by
  rw [Bool.eq_iff_iff, beq_iff_eq, beq_iff_eq, toUpper_eq_iff hd]

@[simp] theorem toUpper_toUpper (c : Char) : c.toUpper.toUpper = c.toUpper := by
  by_cases h : c.isLower = true
  · exact eq_of_beq (forall_ascii (p := Char.isLower)
      (q := fun c => c.toUpper.toUpper == c.toUpper) (by decide) (toNat_lt_of_isLower h) h)
  · rw [toUpper_of_not_isLower h, toUpper_of_not_isLower h]

theorem upperChar_toUpper (c : Char) : upperChar c.toUpper = upperChar c := by
  by_cases h : c.isLower = true
  · exact eq_of_beq (forall_ascii (p := Char.isLower)
      (q := fun c => upperChar c.toUpper == upperChar c) (by decide +kernel)
      (toNat_lt_of_isLower h) h)
  · rw [toUpper_of_not_isLower h]

/-! ## Texts -/

theorem upperAscii_map (cs : List Char) :
    upperAscii (String.ofList (cs.map Char.toUpper)) = upperAscii (String.ofList cs) := by
  simp [upperAscii, Function.comp_def]

theorem upperAscii_upperAscii (text : String) : upperAscii (upperAscii text) = upperAscii text := by
  simp [upperAscii, Function.comp_def]

/-- Full upper case does not depend on the case of ASCII letters. -/
theorem upper_map (cs : List Char) :
    upper (String.ofList (cs.map Char.toUpper)) = upper (String.ofList cs) := by
  simp [upper, List.flatMap_map, upperChar_toUpper]

theorem takeWhile_map {p : Char → Bool} (hp : ∀ c, p c.toUpper = p c) (cs : List Char) :
    (cs.map Char.toUpper).takeWhile p = (cs.takeWhile p).map Char.toUpper := by
  rw [List.takeWhile_map]
  congr 2
  exact funext hp

theorem dropWhile_map {p : Char → Bool} (hp : ∀ c, p c.toUpper = p c) (cs : List Char) :
    (cs.map Char.toUpper).dropWhile p = (cs.dropWhile p).map Char.toUpper := by
  rw [List.dropWhile_map]
  congr 2
  exact funext hp

end Text

open Text

namespace Lexeme

/-! ## Lexemes -/

/-- The lexeme in upper case, and the text after it as well. -/
def upper (x : Lexeme) : Lexeme := ⟨x.kind, x.raw.map Char.toUpper, x.rest.map Char.toUpper⟩

theorem unsigned?_map (cs : List Char) :
    unsigned? (cs.map Char.toUpper) = (unsigned? cs).map fun (raw, rest) =>
      (raw.map Char.toUpper, rest.map Char.toUpper) := by
  have hdigit : ∀ c : Char, c.toUpper.isDigit = c.isDigit := fun c => (caseFacts c).isDigit
  simp only [unsigned?, takeWhile_map hdigit, dropWhile_map hdigit, List.isEmpty_map]
  split
  · rfl
  · cases hd : cs.dropWhile Char.isDigit with
    | nil => rfl
    | cons c rest =>
      by_cases hc : c = '.'
      · subst hc
        have hpoint : Char.toUpper '.' = '.' := rfl
        simp only [List.map_cons, hpoint, takeWhile_map hdigit, dropWhile_map hdigit,
          Option.map_some, List.map_append]
      · have hc' : c.toUpper ≠ '.' := fun h => hc ((toUpper_eq_iff rfl).1 h)
        rw [List.map_cons]
        split
        · next heq => exact absurd (List.cons.inj heq).1 hc'
        · split
          · next heq => exact absurd (List.cons.inj heq).1 hc
          · rfl

theorem number?_map (cs : List Char) :
    number? (cs.map Char.toUpper) = (number? cs).map upper := by
  cases cs with
  | nil => rfl
  | cons c cs =>
    by_cases hc : c = '-'
    · subst hc
      have hminus : Char.toUpper '-' = '-' := rfl
      simp only [List.map_cons, hminus, number?, unsigned?_map, Option.map_map]
      rfl
    · have hc' : c.toUpper ≠ '-' := fun h => hc ((toUpper_eq_iff rfl).1 h)
      have hu := unsigned?_map (c :: cs)
      rw [number?.eq_2 (c :: cs) fun _ heq => hc (List.cons.inj heq).1,
        number?.eq_2 ((c :: cs).map Char.toUpper) fun _ heq => hc' (List.cons.inj heq).1, hu,
        Option.map_map, Option.map_map]
      rfl

theorem isQuote_toUpper (c : Char) : isQuote c.toUpper = isQuote c := by
  simp (disch := decide) only [isQuote, beq_toUpper]

theorem string?_map (cs : List Char) :
    string? (cs.map Char.toUpper) = (string? cs).map upper := by
  cases cs with
  | nil => rfl
  | cons quote cs =>
    simp only [List.map_cons, string?, isQuote_toUpper]
    split
    · next hq =>
      have hsame : quote.toUpper = quote ∧ isWordStart quote = false := by
        rcases isQuote_iff.1 hq with rfl | rfl <;> decide
      have hne : ∀ c : Char, (c.toUpper != quote) = (c != quote) := by
        intro c
        rw [bne, bne, beq_toUpper hsame.2]
      rw [hsame.1, takeWhile_map hne, dropWhile_map hne]
      cases cs.dropWhile (· != quote) with
      | nil => rfl
      | cons closing rest => simp [upper, hsame.1]
    · rfl

theorem word?_map (cs : List Char) :
    word? (cs.map Char.toUpper) = (word? cs).map upper := by
  cases cs with
  | nil => rfl
  | cons c cs =>
    have hpart : ∀ c : Char, isWordPart c.toUpper = isWordPart c := fun c => (caseFacts c).isWordPart
    have hword := upperAscii_map (c :: cs.takeWhile isWordPart)
    rw [List.map_cons] at hword
    simp only [List.map_cons, word?, (caseFacts c).isWordStart, takeWhile_map hpart,
      dropWhile_map hpart, hword]
    split <;> rfl

theorem sign?_eq_none {c : Char} (h : isSign c = false) (cs : List Char) :
    sign? (c :: cs) = none := by
  cases hx : sign? (c :: cs) with
  | none => rfl
  | some x =>
    obtain ⟨hcs, hsign⟩ := sign?_eq_some hx
    obtain ⟨d, ds, hraw, hd⟩ := hsign.raw
    rw [hraw, List.cons_append] at hcs
    rw [(List.cons.inj hcs).1, hd] at h
    cases h

theorem sign?_exclamation {cs : List Char} (h : ∀ rest, cs = '=' :: rest → False) :
    sign? ('!' :: cs) = none := by
  rw [sign?.eq_def]
  split
  case h_2 heq => exact (h _ (List.cons.inj heq).2).elim
  case h_11 => rfl
  all_goals
    next heq => exact absurd (List.cons.inj heq).1 (by decide)

/-- No sign has a letter in it. -/
theorem sign?_map (cs : List Char) :
    sign? (cs.map Char.toUpper) = (sign? cs).map upper := by
  cases cs with
  | nil => rfl
  | cons c cs =>
    by_cases hc : isSign c = true
    case neg =>
      have hc' : isSign c.toUpper = false := by
        simpa (disch := decide) only [isSign, beq_toUpper, Bool.not_eq_true] using hc
      rw [List.map_cons, sign?_eq_none hc', sign?_eq_none (by simpa using hc)]
      rfl
    rw [isSign_iff] at hc
    by_cases hnext : ∃ rest, cs = '=' :: rest
    · obtain ⟨rest, rfl⟩ := hnext
      rcases hc with rfl | rfl | rfl | rfl | rfl | rfl | rfl <;> rfl
    · have hcs : ∀ rest, cs = '=' :: rest → False := fun rest h => hnext ⟨rest, h⟩
      have hcs' : ∀ rest, cs.map Char.toUpper = '=' :: rest → False := by
        intro rest h
        obtain ⟨d, ds, rfl, hd, -⟩ := List.map_eq_cons_iff.1 h
        obtain rfl := (toUpper_eq_iff rfl).1 hd
        exact hcs ds rfl
      rcases hc with rfl | rfl | rfl | rfl | rfl | rfl | rfl
      · rw [sign?.eq_7 cs hcs]
        exact sign?.eq_7 _ hcs'
      · rw [sign?_exclamation hcs]
        exact sign?_exclamation hcs'
      · rw [sign?.eq_6 cs hcs]
        exact sign?.eq_6 _ hcs'
      · rw [sign?.eq_5 cs hcs]
        exact sign?.eq_5 _ hcs'
      · rfl
      · rfl
      · rfl

/-- The front lexeme of a text in upper case is that of the text itself, in upper case as well. -/
theorem front?_map (cs : List Char) :
    front? (cs.map Char.toUpper) = (front? cs).map upper := by
  simp only [front?, Option.orElse_eq_orElse, Option.orElse_eq_or, number?_map, string?_map,
    word?_map, sign?_map, Option.map_or]

/-- A character that begins no lexeme has no case. -/
theorem toUpper_of_front?_eq_none {c : Char} {cs : List Char} (h : front? (c :: cs) = none) :
    c.toUpper = c := by
  apply toUpper_of_not_isLower
  intro hlower
  have hstart := isWordStart_of_isLower hlower
  simp only [front?, Option.orElse_eq_orElse, Option.orElse_eq_or, Option.or_eq_none_iff] at h
  simp [word?, hstart] at h

theorem token_upper {keepCase : Bool} {x : Lexeme} (h : keepCase = true → x.kind ≠ .string)
    (place : Nat) : x.upper.token keepCase place = x.token keepCase place := by
  suffices htext : x.upper.text keepCase = x.text keepCase by
    rw [token, token, htext]
    rfl
  by_cases hk : x.kind = .string
  · have hcase : keepCase = false := by
      rw [← Bool.not_eq_true]
      exact fun hkeep => h hkeep hk
    simp only [text, upper, hk, hcase, Bool.false_eq_true, if_false, upper_map]
  · obtain ⟨kind, raw, rest⟩ := x
    rw [upper, text_of_ne_string hk, text_of_ne_string hk, upperAscii_map]

end Lexeme

/-! ## Scanning -/

namespace Token

/-- Tokens are the same in upper case if strings do not keep their case or there are none. -/
theorem scanFrom_map {keepCase : Bool} (steps place : Nat) {cs : List Char}
    (hcs : keepCase = true → ∀ c ∈ cs, Lexeme.isQuote c = false) :
    scanFrom keepCase steps place (cs.map Char.toUpper) = scanFrom keepCase steps place cs := by
  induction steps generalizing place cs with
  | zero => rfl
  | succ steps ih =>
    have hspace : ∀ c : Char, isSpace c.toUpper = isSpace c := fun c => (caseFacts c).isSpace
    simp only [scanFrom, takeWhile_map hspace, dropWhile_map hspace, byteLength_map_toUpper]
    cases hd : cs.dropWhile isSpace with
    | nil => rfl
    | cons c rest =>
      have hmap := Lexeme.front?_map (c :: rest)
      rw [List.map_cons] at hmap
      simp only [List.map_cons, hmap]
      cases hx : Lexeme.front? (c :: rest) with
      | none => simp only [Option.map_none, Lexeme.toUpper_of_front?_eq_none hx]
      | some x =>
        have hlater : keepCase = true → ∀ d ∈ c :: rest, Lexeme.isQuote d = false := by
          intro hkeep d hmem
          exact hcs hkeep d ((List.dropWhile_sublist isSpace).subset (hd ▸ hmem))
        have hrest : keepCase = true → ∀ d ∈ x.rest, Lexeme.isQuote d = false := by
          intro hkeep d hmem
          apply hlater hkeep
          rw [(Lexeme.front?_eq_some hx).1]
          exact List.mem_append_right _ hmem
        simp only [Option.map_some, Lexeme.token_upper fun hkeep =>
          Lexeme.kind_ne_string hx (hlater hkeep)]
        simp only [Lexeme.upper, byteLength_map_toUpper, ih _ hrest]

theorem scan_upperAscii {keepCase : Bool} {text : String}
    (h : keepCase = true → Quoteless text) : scan (upperAscii text) keepCase = scan text keepCase := by
  have hcs : keepCase = true → ∀ c ∈ text.toList, Lexeme.isQuote c = false := by
    simpa [Quoteless] using h
  rw [scan, scan, toList_upperAscii, List.length_map]
  exact scanFrom_map _ _ hcs

end Token

end Screening
