import Screening.Proofs.Token.Longest
import Screening.Proofs.Token.Scanning

/-!
# Coverage

A scan loses nothing. The tokens stand one behind the other, each is what the text has at its
place, and between them there are blanks only. No word and no number goes on behind its token.
-/

namespace Screening

namespace Text

/-! ## Bytes -/

theorem byteLength_ofList (cs : List Char) : (String.ofList cs).utf8ByteSize = byteLength cs := by
  induction cs with
  | nil => rfl
  | cons c rest ih =>
    rw [String.ofList_cons, String.utf8ByteSize_append, ih, byteLength]
    simp

theorem byteLength_toList (text : String) : byteLength text.toList = text.utf8ByteSize := by
  rw [← byteLength_ofList, String.ofList_toList]

/-- Only letters of one byte change, and they become letters of one byte. -/
theorem utf8Size_toUpper (c : Char) : c.toUpper.utf8Size = c.utf8Size := by
  by_cases h : c.isLower = true
  · exact eq_of_beq (forall_ascii (p := Char.isLower)
      (q := fun c => c.toUpper.utf8Size == c.utf8Size) (by decide) (toNat_lt_of_isLower h) h)
  · rw [toUpper_of_not_isLower h]

theorem byteLength_map_toUpper (cs : List Char) :
    byteLength (cs.map Char.toUpper) = byteLength cs := by
  induction cs with
  | nil => rfl
  | cons c rest ih => rw [List.map_cons, byteLength, byteLength, utf8Size_toUpper, ih]

end Text

open Text

/-- The kinds that words have: a bare word, and the words with a meaning of their own. -/
def TokenKind.isWord : TokenKind → Bool
  | .bool | .aggregateFunction | .field | .logicOp | .identifier => true
  | _ => false

namespace Lexeme

/-! ## Behind a lexeme -/

/-- What follows does not go on with the lexeme: no character of a word behind a word, and no
digit behind a number. -/
structure Ended (kind : TokenKind) (rest : List Char) : Prop where
  word : kind.isWord = true → ∀ c ∈ rest.head?, isWordPart c = false
  number : kind = .number → ∀ c ∈ rest.head?, c.isDigit = false

theorem goesOn_of_isWord {kind : TokenKind} (h : kind.isWord = true) (raw : List Char) (c : Char) :
    goesOn kind raw c = isWordPart c := by
  cases kind <;> first | rfl | cases h

/-- Every lexeme is as long as it can be. -/
theorem front?_ended {cs : List Char} {x : Lexeme} (h : front? cs = some x) :
    Ended x.kind x.rest where
  word hk c hc := by
    rw [← goesOn_of_isWord hk x.raw c]
    exact front?_ends h c hc
  number hk c hc := by
    have hno := front?_ends h c hc
    rw [hk] at hno
    exact (Bool.or_eq_false_iff.1 hno).1

end Lexeme

namespace Token

/-! ## Places -/

/-- The token stands in the text as `raw` between `before` and `after`. Its place is the number of
bytes before it, and its own text is what stands there: just the same if it is a string, and in
upper case otherwise. What follows does not go on with it. -/
structure Stands (source before raw after : List Char) (t : Token) : Prop where
  source : source = before ++ raw ++ after
  position : t.position = byteLength before
  length : byteLength raw = t.text.utf8ByteSize
  text : t.text = if t.kind = .string then String.ofList raw else upperAscii (String.ofList raw)
  ended : Lexeme.Ended t.kind after

/-- The tokens cover the text: each stands at its place, they do not overlap and do not reach
beyond the text, and what none of them covers are blanks. -/
structure Covers (text : String) (ts : List Token) : Prop where
  stands : ∀ t ∈ ts, ∃ before raw after, Stands text.toList before raw after t
  ordered : ts.Pairwise fun t u => t.position < u.position ∧ t.finish ≤ u.position
  within : ∀ t ∈ ts, t.finish ≤ text.utf8ByteSize
  blanks : ∀ before c after, text.toList = before ++ c :: after → isSpace c = true ∨
    ∃ t ∈ ts, t.position ≤ byteLength before ∧ byteLength before + c.utf8Size ≤ t.finish

/-- A token is as long as the lexeme that it was made of. -/
theorem utf8ByteSize_token (x : Lexeme) (place : Nat) :
    (x.token true place).text.utf8ByteSize = byteLength x.raw := by
  by_cases hk : x.kind = .string
  · simp only [Lexeme.token, Lexeme.text, hk, if_true, byteLength_ofList]
  · rw [Lexeme.token, Lexeme.text_of_ne_string hk, upperAscii, byteLength_ofList,
      String.toList_ofList, byteLength_map_toUpper]

theorem finish_token (x : Lexeme) (place : Nat) :
    (x.token true place).finish = place + byteLength x.raw := by
  rw [finish, utf8ByteSize_token, Lexeme.token]

/-- The token of a front lexeme stands where the lexeme was found. -/
theorem stands_token {before cs : List Char} {x : Lexeme} (hx : Lexeme.front? cs = some x) :
    Stands (before ++ cs) before x.raw x.rest (x.token true (byteLength before)) where
  source := by
    rw [(Lexeme.front?_eq_some hx).1, List.append_assoc]
  position := rfl
  length := (utf8ByteSize_token x _).symm
  text := by
    by_cases hk : x.kind = .string
    · simp only [Lexeme.token, Lexeme.text, hk, if_true]
    · rw [if_neg (show (x.token true (byteLength before)).kind ≠ .string from hk)]
      exact Lexeme.text_of_ne_string hk true x.raw x.rest
  ended := Lexeme.front?_ended hx

/-! ## Runs of the scanner -/

namespace Scans

variable {p q : Nat} {cs rest : List Char} {ts : List Token}

/-- A scan goes on from where it is. -/
theorem stands (h : Scans true p cs ts q rest) :
    ∀ source before, source = before ++ cs → p = byteLength before →
      ∀ t ∈ ts, ∃ before raw after, Stands source before raw after t := by
  induction h with
  | done => simp
  | @space p c cs ts q rest hc _ ih =>
    intro source before hsource hp
    refine ih source (before ++ [c]) ?_ ?_
    · rw [hsource, List.append_assoc, List.singleton_append]
    · rw [hp, byteLength_append]
      rfl
  | @lexeme p cs x ts q rest hx _ ih =>
    intro source before hsource hp
    refine List.forall_mem_cons.2 ⟨?_, ih source (before ++ x.raw) ?_ ?_⟩
    · rw [hsource, hp]
      exact ⟨before, x.raw, x.rest, stands_token hx⟩
    · rw [hsource, List.append_assoc, ← (Lexeme.front?_eq_some hx).1]
    · rw [hp, byteLength_append]

/-- No token begins before the scan does. -/
theorem le_position (h : Scans true p cs ts q rest) : ∀ t ∈ ts, p ≤ t.position := by
  induction h with
  | done => simp
  | space _ _ ih => exact fun t ht => Nat.le_of_add_right_le (ih t ht)
  | lexeme hx _ ih =>
    refine List.forall_mem_cons.2 ⟨Nat.le_refl _, fun t ht => ?_⟩
    exact Nat.le_of_add_right_le (ih t ht)

/-- A token begins behind the end of the one before it. -/
theorem ordered (h : Scans true p cs ts q rest) :
    ts.Pairwise fun t u => t.position < u.position ∧ t.finish ≤ u.position := by
  induction h with
  | done => exact List.Pairwise.nil
  | space _ _ ih => exact ih
  | @lexeme p _ x _ _ _ hx hs ih =>
    refine List.Pairwise.cons (fun u hu => ?_) ih
    -- a lexeme has a character at least, so the place moves on
    obtain ⟨c, cs, hraw, -⟩ := (Lexeme.front?_eq_some hx).2.not_space
    have hpos : 0 < byteLength x.raw := by
      rw [hraw, byteLength]
      exact Nat.add_pos_left c.utf8Size_pos _
    have hle : p + byteLength x.raw ≤ u.position := hs.le_position u hu
    have hp : (x.token true p).position = p := rfl
    rw [hp, finish_token]
    omega

/-- What stands in one text behind another stands in the first or in the second. -/
theorem cons_of_append_eq {xs ys before after : List Char} {c : Char}
    (h : xs ++ ys = before ++ c :: after) :
    (∃ behind, before = xs ++ behind ∧ ys = behind ++ c :: after) ∨
      ∃ inside, xs = before ++ c :: inside := by
  rcases List.append_eq_append_iff.1 h with h | ⟨inside, hxs, hc⟩
  · exact .inl h
  · cases inside with
    | nil => exact .inl ⟨[], by simpa using hxs.symm, hc.symm⟩
    | cons d inside =>
      obtain ⟨rfl, -⟩ := List.cons.inj hc
      exact .inr ⟨inside, hxs⟩

/-- A character is a blank or inside of a token. -/
theorem blanks (h : Scans true p cs ts q rest) (hrest : rest = []) :
    ∀ before c after, cs = before ++ c :: after → isSpace c = true ∨
      ∃ t ∈ ts, t.position ≤ p + byteLength before ∧
        p + byteLength before + c.utf8Size ≤ t.finish := by
  induction h with
  | done =>
    intro before c after hcs
    rw [hrest] at hcs
    simp at hcs
  | @space p d cs ts q rest hd _ ih =>
    intro before c after hcs
    cases before with
    | nil =>
      obtain ⟨rfl, -⟩ := List.cons.inj hcs
      exact .inl hd
    | cons e before =>
      obtain ⟨rfl, htail⟩ := List.cons.inj hcs
      rw [byteLength, ← Nat.add_assoc]
      exact ih hrest before c after htail
  | @lexeme p cs x ts q rest hx _ ih =>
    intro before c after hcs
    rw [(Lexeme.front?_eq_some hx).1] at hcs
    rcases cons_of_append_eq hcs with ⟨behind, rfl, hbehind⟩ | ⟨inside, hraw⟩
    · rw [byteLength_append, ← Nat.add_assoc]
      rcases ih hrest behind c after hbehind with hc | ⟨t, ht, hspan⟩
      · exact .inl hc
      · exact .inr ⟨t, List.mem_cons_of_mem _ ht, hspan⟩
    · refine .inr ⟨_, List.mem_cons_self, Nat.le_add_right _ _, ?_⟩
      rw [finish_token, hraw, byteLength_append, byteLength]
      omega

end Scans

/-- A scan loses nothing: its tokens cover the text. -/
theorem covers_of_scan (text : String) (ts : List Token) (h : scan text = .ok ts) :
    Covers text ts := by
  obtain ⟨q, hs⟩ := scan_eq_ok_iff.1 h
  have hstands := hs.stands text.toList [] rfl rfl
  refine ⟨hstands, hs.ordered, fun t ht => ?_, fun before c after hsource => ?_⟩
  · obtain ⟨before, raw, after, ht⟩ := hstands t ht
    rw [← byteLength_toList, ht.source, byteLength_append, byteLength_append, finish, ht.position,
      ht.length]
    exact Nat.le_add_right _ _
  · have := hs.blanks rfl before c after hsource
    simpa only [Nat.zero_add] using this

/-- Lexemes without blanks between them, and a string with characters of two bytes. -/
theorem covers_of_scan_dense :
    ∃ ts : List Token, scan " amount>=12.AND\tlocation='Orléans'" = .ok ts ∧
      ts.map Token.text = ["AMOUNT", ">=", "12.", "AND", "LOCATION", "=", "'Orléans'"] ∧
      ts.map Token.position = [1, 7, 9, 12, 16, 24, 25] ∧
      Covers " amount>=12.AND\tlocation='Orléans'" ts := by
  let ts : List Token := [⟨.field, "AMOUNT", 1⟩, ⟨.comparisonOp, ">=", 7⟩, ⟨.number, "12.", 9⟩,
    ⟨.logicOp, "AND", 12⟩, ⟨.field, "LOCATION", 16⟩, ⟨.comparisonOp, "=", 24⟩,
    ⟨.string, "'Orléans'", 25⟩]
  have h : scan " amount>=12.AND\tlocation='Orléans'" = .ok ts := by decide +kernel
  exact ⟨ts, h, rfl, rfl, covers_of_scan _ _ h⟩

end Token

end Screening
