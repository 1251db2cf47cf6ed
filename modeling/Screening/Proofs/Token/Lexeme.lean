import Screening.Proofs.Number.Layout

/-!
# The front lexeme

What a lexeme at the front of a text looks like, one law for each sort. A lexeme is a front part
of the text with at least one character, and the first character settles its sort.
-/

namespace Screening.Lexeme

open Number Text

/-! ## Sorts -/

/-- The lexeme is a number: it begins with a minus sign or a digit. -/
structure IsNumber (x : Lexeme) : Prop where
  kind : x.kind = .number
  raw : ∃ c cs, x.raw = c :: cs ∧ (c = '-' ∨ c.isDigit = true)

/-- The lexeme is a string: two quotes of one sort, and between them none of that sort. -/
structure IsString (x : Lexeme) : Prop where
  kind : x.kind = .string
  raw : ∃ quote body, x.raw = quote :: (body ++ [quote]) ∧ isQuote quote = true ∧ quote ∉ body

/-- The characters are a word. -/
def isWord : List Char → Bool
  | c :: cs => isWordStart c && cs.all isWordPart
  | [] => false

/-- The lexeme is a word. -/
structure IsWord (x : Lexeme) : Prop where
  raw : isWord x.raw = true
  kind : x.kind = classify (upperAscii (String.ofList x.raw))

/-- The text is a word in upper case of this kind, so it is the text of its own token. -/
def isName (kind : TokenKind) (text : String) : Bool :=
  isWord text.toList && upperAscii text == text && classify text == kind

/-- A character that a sign begins with. -/
def isSign (c : Char) : Bool :=
  c == '=' || c == '!' || c == '<' || c == '>' || c == '(' || c == ')' || c == '*'

/-- The lexeme is a sign. -/
structure IsSign (x : Lexeme) : Prop where
  kind : x.kind = .comparisonOp ∨ x.kind = .lparen ∨ x.kind = .rparen ∨ x.kind = .wildcard
  raw : ∃ c cs, x.raw = c :: cs ∧ isSign c = true

/-! ## One sort at a time -/

theorem unsigned?_eq_some {cs raw rest : List Char} (h : unsigned? cs = some (raw, rest)) :
    cs = raw ++ rest ∧ ∃ c more, raw = c :: more ∧ c.isDigit = true := by
  simp only [unsigned?] at h
  split at h
  · cases h
  · next hne =>
    have hsplit := List.takeWhile_append_dropWhile (p := Char.isDigit) (l := cs)
    obtain ⟨c, more, hw⟩ : ∃ c more, cs.takeWhile Char.isDigit = c :: more :=
      List.exists_cons_of_ne_nil (by simpa using hne)
    have hc : c.isDigit = true := List.mem_takeWhile_imp (l := cs) (by simp [hw])
    split at h
    · next after hd =>
      cases h
      refine ⟨?_, c, _, by rw [hw]; rfl, hc⟩
      rw [hd] at hsplit
      simpa using hsplit.symm
    · cases h
      exact ⟨hsplit.symm, c, more, hw, hc⟩

theorem number?_eq_some {cs : List Char} {x : Lexeme} (h : number? cs = some x) :
    cs = x.raw ++ x.rest ∧ IsNumber x := by
  rw [number?.eq_def] at h
  split at h
  · obtain ⟨⟨raw, rest⟩, hu, rfl⟩ := Option.map_eq_some_iff.1 h
    obtain ⟨rfl, -⟩ := unsigned?_eq_some hu
    exact ⟨rfl, rfl, '-', raw, rfl, .inl rfl⟩
  · obtain ⟨⟨raw, rest⟩, hu, rfl⟩ := Option.map_eq_some_iff.1 h
    obtain ⟨rfl, c, more, rfl, hc⟩ := unsigned?_eq_some hu
    exact ⟨rfl, rfl, c, more, rfl, .inr hc⟩

theorem string?_eq_some {cs : List Char} {x : Lexeme} (h : string? cs = some x) :
    cs = x.raw ++ x.rest ∧ IsString x := by
  cases cs with
  | nil => cases h
  | cons quote cs =>
    simp only [string?] at h
    split at h
    · next hq =>
      have hsplit := List.takeWhile_append_dropWhile (p := (· != quote)) (l := cs)
      split at h
      · next closing rest hd =>
        cases h
        -- what stops the body is the quote that opened it
        have hc : closing = quote := by
          have := List.head?_dropWhile_not (p := (· != quote)) (l := cs)
          simpa [hd] using this
        subst hc
        refine ⟨?_, rfl, closing, _, rfl, hq, fun hm => ?_⟩
        · rw [hd] at hsplit
          simpa using hsplit.symm
        · simpa using List.mem_takeWhile_imp hm
      · cases h
    · cases h

theorem word?_eq_some {cs : List Char} {x : Lexeme} (h : word? cs = some x) :
    cs = x.raw ++ x.rest ∧ IsWord x := by
  cases cs with
  | nil => cases h
  | cons c cs =>
    simp only [word?] at h
    split at h
    · next hc =>
      simp only [Option.some.injEq] at h
      subst h
      refine ⟨?_, ?_, ?_⟩
      · rw [List.cons_append, List.takeWhile_append_dropWhile]
      · simp only [isWord, hc, Bool.true_and, List.all_eq_true]
        exact fun d hd => List.mem_takeWhile_imp hd
      · dsimp only
    · cases h

theorem sign?_eq_some {cs : List Char} {x : Lexeme} (h : sign? cs = some x) :
    cs = x.raw ++ x.rest ∧ IsSign x := by
  rw [sign?.eq_def] at h
  split at h
  case h_11 => simp at h
  all_goals
    obtain rfl := Option.some.inj h
    exact ⟨rfl, by simp, _, _, rfl, by decide⟩

/-! ## All sorts -/

/-- The lexeme is of one of the four sorts. -/
inductive Shape (x : Lexeme) : Prop
  | number (h : IsNumber x)
  | string (h : IsString x)
  | word (h : IsWord x)
  | sign (h : IsSign x)

theorem front?_eq_some {cs : List Char} {x : Lexeme} (h : front? cs = some x) :
    cs = x.raw ++ x.rest ∧ Shape x := by
  simp only [front?, Option.orElse_eq_orElse, Option.orElse_eq_or, Option.or_eq_some_iff] at h
  rcases h with h | ⟨-, h | ⟨-, h | ⟨-, h⟩⟩⟩
  · exact (number?_eq_some h).imp_right .number
  · exact (string?_eq_some h).imp_right .string
  · exact (word?_eq_some h).imp_right .word
  · exact (sign?_eq_some h).imp_right .sign

/-! ## First characters -/

theorem isWordPart_of_isWordStart {c : Char} (h : isWordStart c = true) : isWordPart c = true := by
  simp only [isWordStart, isWordPart, Char.isAlphanum, Bool.or_eq_true] at h ⊢
  exact h.imp_left .inl

/-- What is needed of the first character of a word: nothing else begins with it. -/
structure StartFacts (c : Char) : Prop where
  isDigit : c.isDigit = false
  ne_minus : c ≠ '-'
  isQuote : isQuote c = false
  isSpace : isSpace c = false

theorem startFacts {c : Char} (h : isWordStart c = true) : StartFacts c := by
  have hascii := toNat_lt_of_isWordPart (isWordPart_of_isWordStart h)
  have key := forall_ascii (p := isWordStart) (q := fun c => !c.isDigit && c != '-' && !isQuote c &&
    !isSpace c) (by decide) hascii h
  simp only [Bool.and_eq_true, bne_iff_ne, Bool.not_eq_true'] at key
  obtain ⟨⟨⟨hd, hm⟩, hq⟩, hs⟩ := key
  exact ⟨hd, hm, hq, hs⟩

theorem isQuote_iff {c : Char} : isQuote c = true ↔ c = '\x27' ∨ c = '"' := by
  simp [isQuote]

theorem isSign_iff {c : Char} : isSign c = true ↔
    c = '=' ∨ c = '!' ∨ c = '<' ∨ c = '>' ∨ c = '(' ∨ c = ')' ∨ c = '*' := by
  simp [isSign, or_assoc]

/-- A character that a sign begins with begins nothing else. -/
theorem signFacts {c : Char} (h : isSign c = true) :
    c.isDigit = false ∧ c ≠ '-' ∧ isQuote c = false ∧ isWordStart c = false := by
  rcases isSign_iff.1 h with rfl | rfl | rfl | rfl | rfl | rfl | rfl <;> decide

/-- No lexeme begins with a space. -/
theorem Shape.not_space {x : Lexeme} (h : Shape x) :
    ∃ c cs, x.raw = c :: cs ∧ isSpace c = false := by
  cases h with
  | number h =>
    obtain ⟨c, cs, hraw, rfl | hc⟩ := h.raw
    · exact ⟨'-', cs, hraw, rfl⟩
    · exact ⟨c, cs, hraw, (digitFacts hc).isSpace⟩
  | string h =>
    obtain ⟨quote, body, hraw, hq, -⟩ := h.raw
    rcases isQuote_iff.1 hq with rfl | rfl
    · exact ⟨_, _, hraw, rfl⟩
    · exact ⟨_, _, hraw, rfl⟩
  | word h =>
    cases hraw : x.raw with
    | nil =>
      have := h.raw
      rw [hraw] at this
      cases this
    | cons c cs =>
      have hw := h.raw
      simp only [hraw, isWord, Bool.and_eq_true] at hw
      exact ⟨c, cs, rfl, (startFacts hw.1).isSpace⟩
  | sign h =>
    obtain ⟨c, cs, hraw, hc⟩ := h.raw
    refine ⟨c, cs, hraw, ?_⟩
    rcases isSign_iff.1 hc with rfl | rfl | rfl | rfl | rfl | rfl | rfl <;> rfl

/-- A lexeme uses up a character at least. -/
theorem length_rest_lt {cs : List Char} {x : Lexeme} (h : front? cs = some x) :
    x.rest.length < cs.length := by
  obtain ⟨hcs, hx⟩ := front?_eq_some h
  obtain ⟨c, raw, hraw, -⟩ := hx.not_space
  rw [hcs, hraw, List.length_append, List.length_cons]
  omega

/-! ## Writing -/

theorem number?_eq_none {c : Char} (hd : c.isDigit = false) (hm : c ≠ '-') (cs : List Char) :
    number? (c :: cs) = none := by
  rw [number?.eq_def]
  split
  · next heq => exact absurd (List.cons.inj heq).1 hm
  · simp [unsigned?, hd]

theorem string?_eq_none {c : Char} (hq : isQuote c = false) (cs : List Char) :
    string? (c :: cs) = none := by
  simp [string?, hq]

/-- A word is the front lexeme if what follows does not go on with it. -/
theorem front?_word_stop {raw rest : List Char} (hraw : isWord raw = true)
    (hrest : ∀ c ∈ rest.head?, isWordPart c = false) :
    front? (raw ++ rest) = some ⟨classify (upperAscii (String.ofList raw)), raw, rest⟩ := by
  cases raw with
  | nil => cases hraw
  | cons c cs =>
    simp only [isWord, Bool.and_eq_true, List.all_eq_true] at hraw
    obtain ⟨hc, hcs⟩ := hraw
    -- nothing else begins like a word
    have hf := startFacts hc
    obtain ⟨htake, hdrop⟩ := span_stop hcs hrest
    simp [front?, number?_eq_none hf.isDigit hf.ne_minus, string?_eq_none hf.isQuote, word?, hc,
      htake, hdrop]

/-- A string is the front lexeme whatever follows. -/
theorem front?_string {quote : Char} {body : List Char} (hq : isQuote quote = true)
    (hbody : quote ∉ body) (rest : List Char) :
    front? (quote :: (body ++ [quote]) ++ rest) =
      some ⟨.string, quote :: (body ++ [quote]), rest⟩ := by
  have hne : ∀ c ∈ body, (c != quote) = true := by
    intro c hc
    rw [bne_iff_ne]
    rintro rfl
    exact hbody hc
  have hnumber : ∀ cs, number? (quote :: cs) = none := by
    rcases isQuote_iff.1 hq with rfl | rfl
    · exact number?_eq_none rfl (by decide)
    · exact number?_eq_none rfl (by decide)
  simp [front?, hnumber, string?, hq, List.takeWhile_append_of_pos hne,
    List.dropWhile_append_of_pos hne]

/-- A number without a point is read whole if neither a digit nor a point follows. -/
theorem unsigned?_whole {digits rest : List Char} (hd : IsDigits digits)
    (hrest : ∀ c ∈ rest.head?, c.isDigit = false ∧ c ≠ '.') :
    unsigned? (digits ++ rest) = some (digits, rest) := by
  obtain ⟨htake, hdrop⟩ := span_stop hd.isDigit fun c hc => (hrest c hc).1
  simp only [unsigned?, htake, hdrop, List.isEmpty_eq_false_iff.2 hd.ne_nil, Bool.false_eq_true,
    if_false]
  split
  · exact absurd rfl (hrest '.' rfl).2
  · rfl

/-- One with a point is read whole if no digit follows. -/
theorem unsigned?_point {whole fraction rest : List Char} (hw : IsDigits whole)
    (hf : ∀ c ∈ fraction, c.isDigit = true) (hrest : ∀ c ∈ rest.head?, c.isDigit = false) :
    unsigned? (whole ++ '.' :: fraction ++ rest) = some (whole ++ '.' :: fraction, rest) := by
  have hpoint : ∀ c ∈ ('.' :: (fraction ++ rest)).head?, c.isDigit = false := by simp
  obtain ⟨htake, hdrop⟩ := span_stop hw.isDigit hpoint
  obtain ⟨htake', hdrop'⟩ := span_stop hf hrest
  rw [List.append_assoc, List.cons_append]
  simp only [unsigned?, htake, hdrop, htake', hdrop', List.isEmpty_eq_false_iff.2 hw.ne_nil,
    Bool.false_eq_true, if_false]

/-- Digits, with a sign or without, are the front lexeme if their end is. -/
theorem front?_signed (negative : Bool) {digits cs raw rest : List Char} (hd : IsDigits digits)
    (hu : unsigned? (digits ++ cs) = some (raw, rest)) :
    front? (signText negative ++ (digits ++ cs)) =
      some ⟨.number, signText negative ++ raw, rest⟩ := by
  obtain ⟨c, more, rfl, hc⟩ := hd.cons
  rw [List.cons_append] at hu ⊢
  cases negative with
  | true => simp [front?, signText, number?, hu]
  | false =>
    have hm := (digitFacts hc).ne_minus
    have hnumber : number? (c :: (more ++ cs)) = some ⟨.number, raw, rest⟩ := by
      rw [number?.eq_def]
      split
      · next heq => exact absurd (List.cons.inj heq).1 hm
      · rw [hu]
        rfl
    simp [front?, signText, hnumber]

/-! ## Upper case -/

/-- All but strings are in upper case. -/
theorem text_of_ne_string {kind : TokenKind} (hkind : kind ≠ .string) (keepCase : Bool)
    (raw rest : List Char) :
    (Lexeme.mk kind raw rest).text keepCase = upperAscii (String.ofList raw) := by
  rw [text]
  split
  · next hk => exact absurd hk hkind
  · rfl

/-- The text of a number has no lower case. -/
theorem map_toUpper_number {raw : List Char} (h : NumberShape raw) :
    raw.map Char.toUpper = raw := by
  have hdigits : ∀ {cs : List Char}, IsDigits cs → cs.map Char.toUpper = cs := by
    intro cs hd
    rw [List.map_congr_left fun c hc => (digitFacts (hd.isDigit c hc)).toUpper, List.map_id']
  have hsign : ∀ negative, (signText negative).map Char.toUpper = signText negative := by decide
  cases h with
  | whole negative hd => rw [List.map_append, hsign, hdigits hd]
  | point negative hw hf =>
    rw [List.map_append, hsign, List.map_append, hdigits hw, List.map_cons, hdigits hf]
    rfl

end Screening.Lexeme
