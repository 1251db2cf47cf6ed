import Screening.Proofs.Token.Lexeme

/-!
# The longest lexeme

Which characters are a lexeme, said without the scanner. The lexeme at the front of a text is the
longest one that the text begins with. What stands behind it matters by its first character only:
that character would not go on with it.
-/

namespace Screening.Lexeme

open Number Text

/-! ## Lexemes by themselves -/

/-- The signs and their kinds. -/
def signs : List (TokenKind × List Char) :=
  [(.comparisonOp, ['=', '=']), (.comparisonOp, ['!', '=']), (.comparisonOp, ['>', '=']),
   (.comparisonOp, ['<', '=']), (.comparisonOp, ['>']), (.comparisonOp, ['<']),
   (.comparisonOp, ['=']), (.lparen, ['(']), (.rparen, [')']), (.wildcard, ['*'])]

/-- The characters are a lexeme of this kind, wherever they stand. -/
inductive IsLexeme : TokenKind → List Char → Prop
  | whole (negative : Bool) {digits : List Char} : IsDigits digits →
      IsLexeme .number (signText negative ++ digits)
  | pointed (negative : Bool) {whole fraction : List Char} : IsDigits whole →
      (∀ c ∈ fraction, c.isDigit = true) →
      IsLexeme .number (signText negative ++ (whole ++ '.' :: fraction))
  | string {quote : Char} {body : List Char} : isQuote quote = true → quote ∉ body →
      IsLexeme .string (quote :: (body ++ [quote]))
  | word {raw : List Char} : isWord raw = true →
      IsLexeme (classify (upperAscii (String.ofList raw))) raw
  | sign {kind : TokenKind} {raw : List Char} : (kind, raw) ∈ signs → IsLexeme kind raw

theorem isLexeme_of_numberShape {raw : List Char} (h : NumberShape raw) : IsLexeme .number raw := by
  cases h with
  | whole negative hd => exact .whole negative hd
  | point negative hw hf => exact .pointed negative hw hf.isDigit

theorem isLexeme_comparator (op : Comparator) : IsLexeme .comparisonOp op.symbol.toList :=
  .sign (by cases op <;> decide)

/-- Whether `c` behind a lexeme of this kind goes on with it. -/
def goesOn (kind : TokenKind) (raw : List Char) (c : Char) : Bool :=
  match kind with
  | .number => c.isDigit || c == '.' && !raw.contains '.'
  | .comparisonOp => c == '=' && raw.length == 1
  | .bool | .aggregateFunction | .field | .logicOp | .identifier => isWordPart c
  | .string | .lparen | .rparen | .wildcard => false

/-- Words go on with every character of a word. -/
theorem goesOn_classify (word : String) (raw : List Char) (c : Char) :
    goesOn (classify word) raw c = isWordPart c := by
  rw [classify]
  repeat' split
  all_goals rfl

/-- A lexeme begins with this character. -/
def isStart (c : Char) : Bool :=
  c.isDigit || c == '-' || isQuote c || isWordStart c || isSign c

/-! ## The front lexeme is a lexeme -/

theorem isLexeme_of_unsigned? {cs raw rest : List Char} (h : unsigned? cs = some (raw, rest))
    (negative : Bool) : IsLexeme .number (signText negative ++ raw) := by
  simp only [unsigned?] at h
  split at h
  · cases h
  · next hwhole =>
    have hdigits : IsDigits (cs.takeWhile Char.isDigit) :=
      ⟨by simpa using hwhole, fun c hc => List.mem_takeWhile_imp hc⟩
    split at h
    · cases h
      exact .pointed negative hdigits fun c hc => List.mem_takeWhile_imp hc
    · cases h
      exact .whole negative hdigits

theorem isLexeme_of_number? {cs : List Char} {x : Lexeme} (h : number? cs = some x) :
    IsLexeme x.kind x.raw := by
  rw [number?.eq_def] at h
  split at h
  · obtain ⟨⟨raw, rest⟩, hu, rfl⟩ := Option.map_eq_some_iff.1 h
    exact isLexeme_of_unsigned? hu true
  · obtain ⟨⟨raw, rest⟩, hu, rfl⟩ := Option.map_eq_some_iff.1 h
    exact isLexeme_of_unsigned? hu false

theorem isLexeme_of_sign? {cs : List Char} {x : Lexeme} (h : sign? cs = some x) :
    IsLexeme x.kind x.raw := by
  rw [sign?.eq_def] at h
  split at h
  case h_11 => cases h
  all_goals
    obtain rfl := Option.some.inj h
    exact .sign (by simp [signs])

theorem isLexeme_of_front? {cs : List Char} {x : Lexeme} (h : front? cs = some x) :
    IsLexeme x.kind x.raw := by
  simp only [front?, Option.orElse_eq_orElse, Option.orElse_eq_or, Option.or_eq_some_iff] at h
  rcases h with h | ⟨-, h | ⟨-, h | ⟨-, h⟩⟩⟩
  · exact isLexeme_of_number? h
  · have hx := (string?_eq_some h).2
    obtain ⟨quote, body, hraw, hq, hbody⟩ := hx.raw
    rw [hx.kind, hraw]
    exact .string hq hbody
  · have hx := (word?_eq_some h).2
    rw [hx.kind]
    exact .word hx.raw
  · exact isLexeme_of_sign? h

/-! ## A lexeme that does not go on is the front lexeme -/

theorem front?_isSign {c : Char} (h : isSign c = true) (cs : List Char) :
    front? (c :: cs) = sign? (c :: cs) := by
  obtain ⟨hd, hm, hq, hw⟩ := signFacts h
  simp [front?, number?_eq_none hd hm, string?_eq_none hq, word?, hw]

theorem exists_isSign {kind : TokenKind} {raw : List Char} (h : (kind, raw) ∈ signs) :
    ∃ c cs, raw = c :: cs ∧ isSign c = true := by
  have hall : ∀ sign ∈ signs, sign.2.head?.any isSign = true := by decide
  cases raw with
  | nil => exact absurd (hall _ h) (by simp)
  | cons c cs => exact ⟨c, cs, rfl, by simpa using hall _ h⟩

theorem sign?_stop {kind : TokenKind} {raw rest : List Char} (h : (kind, raw) ∈ signs)
    (hrest : ∀ c ∈ rest.head?, goesOn kind raw c = false) :
    sign? (raw ++ rest) = some ⟨kind, raw, rest⟩ := by
  have hequal : goesOn kind raw '=' = true → ∀ more, rest = '=' :: more → False := by
    rintro hon more rfl
    rw [hrest '=' rfl] at hon
    cases hon
  simp only [signs, List.mem_cons, Prod.mk.injEq, List.not_mem_nil, or_false] at h
  rcases h with ⟨rfl, rfl⟩ | ⟨rfl, rfl⟩ | ⟨rfl, rfl⟩ | ⟨rfl, rfl⟩ | ⟨rfl, rfl⟩ | ⟨rfl, rfl⟩ |
    ⟨rfl, rfl⟩ | ⟨rfl, rfl⟩ | ⟨rfl, rfl⟩ | ⟨rfl, rfl⟩
  case inr.inr.inr.inr.inl => exact sign?.eq_5 rest (hequal rfl)
  case inr.inr.inr.inr.inr.inl => exact sign?.eq_6 rest (hequal rfl)
  case inr.inr.inr.inr.inr.inr.inl => exact sign?.eq_7 rest (hequal rfl)
  all_goals rfl

/-- Every lexeme begins with a character that begins lexemes. -/
theorem IsLexeme.exists_isStart {kind : TokenKind} {raw : List Char} (h : IsLexeme kind raw) :
    ∃ c cs, raw = c :: cs ∧ isStart c = true := by
  have hnumber : ∀ negative {digits : List Char} (rest : List Char), IsDigits digits →
      ∃ c cs, signText negative ++ (digits ++ rest) = c :: cs ∧ isStart c = true := by
    intro negative digits rest hd
    obtain ⟨c, cs, rfl, hc⟩ := hd.cons
    cases negative with
    | true => exact ⟨'-', c :: cs ++ rest, rfl, rfl⟩
    | false => exact ⟨c, cs ++ rest, rfl, by simp [isStart, hc]⟩
  cases h with
  | whole negative hd => simpa using hnumber negative [] hd
  | pointed negative hw => exact hnumber negative _ hw
  | string hq => exact ⟨_, _, rfl, by simp [isStart, hq]⟩
  | @word raw hraw =>
    cases raw with
    | nil => cases hraw
    | cons c cs =>
      simp only [isWord, Bool.and_eq_true] at hraw
      exact ⟨c, cs, rfl, by simp [isStart, hraw.1]⟩
  | sign hs =>
    obtain ⟨c, cs, hraw, hc⟩ := exists_isSign hs
    exact ⟨c, cs, hraw, by simp [isStart, hc]⟩

/-- Without a point a number has digits and a sign only. -/
theorem point_notMem_whole (negative : Bool) {digits : List Char} (hd : IsDigits digits) :
    (signText negative ++ digits).contains '.' = false := by
  have hdigits : '.' ∉ digits := fun hm => absurd (hd.isDigit '.' hm) (by decide)
  cases negative <;> simp [signText, hdigits]

/-- A lexeme is the front lexeme if what follows does not go on with it. -/
theorem front?_stop {kind : TokenKind} {raw rest : List Char} (h : IsLexeme kind raw)
    (hrest : ∀ c ∈ rest.head?, goesOn kind raw c = false) :
    front? (raw ++ rest) = some ⟨kind, raw, rest⟩ := by
  cases h with
  | @whole negative digits hd =>
    have hstop : ∀ c ∈ rest.head?, c.isDigit = false ∧ c ≠ '.' := by
      intro c hc
      have hno := hrest c hc
      simp only [goesOn, point_notMem_whole negative hd, Bool.or_eq_false_iff, Bool.not_false,
        Bool.and_true, beq_eq_false_iff_ne] at hno
      exact hno
    rw [List.append_assoc]
    exact front?_signed negative hd (unsigned?_whole hd hstop)
  | pointed negative hw hf =>
    have hstop : ∀ c ∈ rest.head?, c.isDigit = false := by
      intro c hc
      exact (Bool.or_eq_false_iff.1 (hrest c hc)).1
    have hu := unsigned?_point hw hf hstop
    rw [List.append_assoc] at hu ⊢
    rw [List.append_assoc]
    exact front?_signed negative hw hu
  | string hq hbody => exact front?_string hq hbody rest
  | @word raw hraw =>
    refine front?_word_stop hraw fun c hc => ?_
    rw [← goesOn_classify (upperAscii (String.ofList raw)) raw c]
    exact hrest c hc
  | sign hs =>
    obtain ⟨c, cs, rfl, hc⟩ := exists_isSign hs
    rw [List.cons_append, front?_isSign hc]
    exact sign?_stop hs hrest

/-! ## A lexeme that goes on is a lexeme again -/

/-- Signs go on with an equals sign only. -/
theorem goesOn_sign {kind : TokenKind} {raw : List Char} {c : Char} (h : (kind, raw) ∈ signs)
    (hc : goesOn kind raw c = true) : c = '=' := by
  have hkind : ∀ sign ∈ signs, sign.1 = .comparisonOp ∨ sign.1 = .lparen ∨ sign.1 = .rparen ∨
      sign.1 = .wildcard := by
    decide
  rcases hkind _ h with hk | hk | hk | hk <;> obtain rfl : kind = _ := hk
  · simp only [goesOn, Bool.and_eq_true, beq_iff_eq] at hc
    exact hc.1
  · cases hc
  · cases hc
  · cases hc

/-- A lexeme with one more character that goes on with it is a lexeme. -/
theorem IsLexeme.snoc {kind : TokenKind} {raw : List Char} {c : Char} (h : IsLexeme kind raw)
    (hc : goesOn kind raw c = true) : ∃ kind', IsLexeme kind' (raw ++ [c]) := by
  cases h with
  | @whole negative digits hd =>
    simp only [goesOn, point_notMem_whole negative hd, Bool.or_eq_true, Bool.not_false,
      Bool.and_true, beq_iff_eq] at hc
    rw [List.append_assoc]
    rcases hc with hc | rfl
    · exact ⟨_, .whole negative (hd.append (by simpa using hc))⟩
    · exact ⟨_, .pointed negative hd (by simp)⟩
  | @pointed negative whole fraction hw hf =>
    simp only [goesOn, Bool.or_eq_true, Bool.and_eq_true] at hc
    rcases hc with hc | ⟨-, hpoint⟩
    · rw [List.append_assoc, List.append_assoc, List.cons_append]
      refine ⟨_, .pointed negative hw fun d hd => ?_⟩
      rcases List.mem_append.1 hd with hd | hd
      · exact hf d hd
      · rwa [List.mem_singleton.1 hd]
    · -- there is a point already
      simp at hpoint
  | string => cases hc
  | @word raw hraw =>
    rw [goesOn_classify] at hc
    refine ⟨_, .word ?_⟩
    cases raw with
    | nil => cases hraw
    | cons d ds =>
      simp only [isWord, Bool.and_eq_true, List.cons_append, List.all_append, List.all_cons,
        List.all_nil, Bool.and_true] at hraw ⊢
      exact ⟨hraw.1, hraw.2, hc⟩
  | sign hs =>
    have hequal : c = '=' := goesOn_sign hs hc
    subst hequal
    have hall : ∀ sign ∈ signs, goesOn sign.1 sign.2 '=' = true →
        (TokenKind.comparisonOp, sign.2 ++ ['=']) ∈ signs := by
      decide
    exact ⟨_, .sign (hall _ hs hc)⟩

/-- A text that begins with a lexeme has a front lexeme, and this is as long at least. -/
theorem IsLexeme.exists_front? {kind : TokenKind} {raw : List Char} (h : IsLexeme kind raw)
    (tail : List Char) : ∃ x, front? (raw ++ tail) = some x ∧ raw <+: x.raw := by
  induction tail generalizing kind raw with
  | nil => exact ⟨_, front?_stop h (by simp), List.prefix_rfl⟩
  | cons c tail ih =>
    by_cases hc : goesOn kind raw c = true
    · obtain ⟨kind', h'⟩ := h.snoc hc
      obtain ⟨x, hx, hraw⟩ := ih h'
      rw [List.append_assoc, List.singleton_append] at hx
      exact ⟨x, hx, (List.prefix_append raw [c]).trans hraw⟩
    · exact ⟨_, front?_stop h (by simpa using hc), List.prefix_rfl⟩

/-! ## The front lexeme -/

/-- Where no lexeme is the front lexeme the text begins with none, and conversely. -/
theorem front?_eq_none_iff {cs : List Char} :
    front? cs = none ↔ ∀ kind raw, raw <+: cs → ¬IsLexeme kind raw := by
  constructor
  · rintro h kind raw ⟨tail, rfl⟩ hraw
    obtain ⟨x, hx, -⟩ := hraw.exists_front? tail
    rw [h] at hx
    cases hx
  · intro h
    cases hx : front? cs with
    | none => rfl
    | some x => exact absurd (isLexeme_of_front? hx) (h _ _ ⟨x.rest, (front?_eq_some hx).1.symm⟩)

/-- The front lexeme is the longest one that the text begins with. -/
theorem front?_longest {cs : List Char} {x : Lexeme} (h : front? cs = some x) {kind : TokenKind}
    {raw : List Char} (hraw : IsLexeme kind raw) (hcs : raw <+: cs) : raw <+: x.raw := by
  obtain ⟨tail, rfl⟩ := hcs
  obtain ⟨y, hy, hprefix⟩ := hraw.exists_front? tail
  obtain rfl : x = y := Option.some.inj (h.symm.trans hy)
  exact hprefix

/-- `raw` is the longest lexeme that `cs` begins with. -/
structure Longest (raw cs : List Char) : Prop where
  isLexeme : ∃ kind, IsLexeme kind raw
  begins : raw <+: cs
  longest : ∀ kind raw', IsLexeme kind raw' → raw' <+: cs → raw'.length ≤ raw.length

theorem longest_iff {raw cs : List Char} :
    Longest raw cs ↔ ∃ x, front? cs = some x ∧ x.raw = raw := by
  constructor
  · intro h
    obtain ⟨kind, hraw⟩ := h.isLexeme
    cases hx : front? cs with
    | none => exact absurd hraw (front?_eq_none_iff.1 hx kind raw h.begins)
    | some x =>
      have hle := h.longest x.kind x.raw (isLexeme_of_front? hx) ⟨x.rest, (front?_eq_some hx).1.symm⟩
      exact ⟨x, rfl, ((front?_longest hx hraw h.begins).eq_of_length_le hle).symm⟩
  · rintro ⟨x, hx, rfl⟩
    exact ⟨⟨x.kind, isLexeme_of_front? hx⟩, ⟨x.rest, (front?_eq_some hx).1.symm⟩,
      fun kind raw' h hcs => (front?_longest hx h hcs).length_le⟩

/-- What follows the front lexeme does not go on with it. -/
theorem front?_ends {cs : List Char} {x : Lexeme} (h : front? cs = some x) :
    ∀ c ∈ x.rest.head?, goesOn x.kind x.raw c = false := by
  intro c hc
  rw [← Bool.not_eq_true]
  intro hon
  obtain ⟨rest, hrest⟩ := List.head?_eq_some_iff.1 hc
  obtain ⟨kind, hlonger⟩ := (isLexeme_of_front? h).snoc hon
  -- else the lexeme with this character would be a longer one
  have hcs : x.raw ++ [c] <+: cs := by
    rw [(front?_eq_some h).1, hrest]
    exact ⟨rest, List.append_assoc _ _ _⟩
  have hle := (front?_longest h hlonger hcs).length_le
  rw [List.length_append, List.length_singleton] at hle
  exact absurd hle (Nat.not_succ_le_self _)

/-! ## Characters that no lexeme goes on with -/

/-- No lexeme goes on with this character. -/
def isApart (c : Char) : Bool := !isWordPart c && c != '.' && c != '='

theorem goesOn_of_isApart {c : Char} (h : isApart c = true) (kind : TokenKind) (raw : List Char) :
    goesOn kind raw c = false := by
  simp only [isApart, Bool.and_eq_true, Bool.not_eq_true', bne_iff_ne] at h
  obtain ⟨⟨hpart, hpoint⟩, hequal⟩ := h
  have hdigit : c.isDigit = false := by
    simp only [isWordPart, Char.isAlphanum, Bool.or_eq_false_iff] at hpart
    exact hpart.1.2
  cases kind <;> simp [goesOn, hpart, hpoint, hequal, hdigit]

/-! ## In front of a delimiter -/

theorem isApart_of_isDelimiter {c : Char} (h : isDelimiter c = true) : isApart c = true := by
  simp only [isDelimiter, Bool.or_eq_true, beq_iff_eq] at h
  rcases h with (rfl | rfl) | rfl <;> rfl

/-- A lexeme is the front lexeme if a delimiter or nothing follows. -/
theorem IsLexeme.front?_delimited {kind : TokenKind} {raw rest : List Char}
    (h : IsLexeme kind raw) (hrest : Delimited rest) :
    front? (raw ++ rest) = some ⟨kind, raw, rest⟩ :=
  front?_stop h fun c hc => goesOn_of_isApart (isApart_of_isDelimiter (hrest c hc)) kind raw

/-! ## Another text behind a lexeme -/

/-- The second text may take the place of the first behind a lexeme: it is over, or it begins with the
same character or with one that no lexeme goes on with. -/
def Replaces (rest rest' : List Char) : Prop :=
  ∀ c ∈ rest'.head?, c ∈ rest.head? ∨ isApart c = true

theorem Replaces.append {rest rest' : List Char} (h : Replaces rest rest') (front : List Char) :
    Replaces (front ++ rest) (front ++ rest') := by
  cases front with
  | nil => exact h
  | cons c front => exact fun d hd => .inl hd

/-- A text may be cut off. -/
theorem replaces_nil {rest : List Char} : Replaces rest [] := by simp [Replaces]

/-- It may go on with a delimiter. -/
theorem replaces_append (rest : List Char) {behind : List Char} (hb : Delimited behind) :
    Replaces rest (rest ++ behind) := by
  have hend : Replaces [] behind := fun c hc => .inr (isApart_of_isDelimiter (hb c hc))
  have happend := hend.append rest
  rwa [List.append_nil] at happend

/-- Such a text does not change the front lexeme. -/
theorem front?_replace {cs rest : List Char} {x : Lexeme} (h : front? cs = some x)
    (hrest : Replaces x.rest rest) : front? (x.raw ++ rest) = some ⟨x.kind, x.raw, rest⟩ := by
  refine front?_stop (isLexeme_of_front? h) fun c hc => ?_
  rcases hrest c hc with hc | hc
  · exact front?_ends h c hc
  · exact goesOn_of_isApart hc _ _

end Screening.Lexeme
