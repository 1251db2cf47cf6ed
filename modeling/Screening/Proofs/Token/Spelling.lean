import Screening.Proofs.Token.Longest
import Screening.Proofs.Token.Scanning

/-!
# Spelling

When a text is scanned as tokens with a given property, wherever it stands in front of a
delimiter. Texts are put together from parts with the laws below, and the tokens of the parts
follow one another.
-/

namespace Screening.Token

open Number Text

/-- In front of a delimiter or the end the text is scanned as tokens that `P` holds of. -/
def Spells (text : String) (P : List Token → Prop) : Prop :=
  ∀ p rest, Delimited rest → ∃ ts q, P ts ∧ Scans true p (text.toList ++ rest) ts q rest

/-- One token of this kind and text. -/
def Lone (kind : TokenKind) (text : String) (ts : List Token) : Prop :=
  ∃ t, ts = [t] ∧ t.kind = kind ∧ t.text = text

namespace Spells

variable {text a b : String} {P Q : List Token → Prop}

theorem mono (h : Spells text P) (hPQ : ∀ ts, P ts → Q ts) : Spells text Q := by
  intro p rest hrest
  obtain ⟨ts, q, hP, hs⟩ := h p rest hrest
  exact ⟨ts, q, hPQ ts hP, hs⟩

/-- A text that is spelled has these tokens as a whole. -/
theorem scan (h : Spells text P) : ∃ ts, P ts ∧ Token.scan text = .ok ts := by
  obtain ⟨ts, q, hP, hs⟩ := h 0 [] .nil
  rw [List.append_nil] at hs
  exact ⟨ts, hP, scan_eq_ok_iff.2 ⟨q, hs⟩⟩

/-! ## Putting texts together -/

/-- A text that begins with a delimiter may follow any other. -/
theorem append (ha : Spells a P) (hb : Spells b Q) (hd : Delimited b.toList) :
    Spells (a ++ b) fun ts => ∃ us vs, ts = us ++ vs ∧ P us ∧ Q vs := by
  intro p rest hrest
  have hbetween : Delimited (b.toList ++ rest) := by
    cases hcs : b.toList with
    | nil => exact hrest
    | cons c cs =>
      rw [hcs] at hd
      exact delimited_cons.2 (delimited_cons.1 hd)
  obtain ⟨us, q, hP, hus⟩ := ha p (b.toList ++ rest) hbetween
  obtain ⟨vs, r, hQ, hvs⟩ := hb q rest hrest
  refine ⟨us ++ vs, r, ⟨us, vs, rfl, hP, hQ⟩, ?_⟩
  rw [String.toList_append, List.append_assoc]
  exact hus.append hvs

theorem space (h : Spells text P) : Spells (" " ++ text) P := by
  intro p rest hrest
  obtain ⟨ts, q, hP, hs⟩ := h (p + ' '.utf8Size) rest hrest
  refine ⟨ts, q, hP, ?_⟩
  rw [String.toList_append, List.append_assoc]
  exact .space rfl hs

theorem delimited_space (text : String) : Delimited (" " ++ text).toList := by
  rw [String.toList_append]
  exact delimited_cons.2 rfl

/-- Two texts with a space between them. -/
theorem spaced (ha : Spells a P) (hb : Spells b Q) :
    Spells (a ++ (" " ++ b)) fun ts => ∃ us vs, ts = us ++ vs ∧ P us ∧ Q vs :=
  ha.append hb.space (delimited_space b)

/-- A text in parentheses. -/
theorem group (h : Spells text P) :
    Spells ("(" ++ text ++ ")") fun ts => ∃ opening us closing,
      ts = opening :: (us ++ [closing]) ∧ opening.kind = .lparen ∧ P us ∧
        closing.kind = .rparen := by
  intro p rest _
  obtain ⟨ts, q, hP, hs⟩ := h (p + byteLength ['(']) (')' :: rest) (delimited_cons.2 rfl)
  have hopening : Lexeme.front? ('(' :: (text.toList ++ ')' :: rest)) =
      some ⟨.lparen, ['('], text.toList ++ ')' :: rest⟩ := rfl
  have hclosing : Lexeme.front? (')' :: rest) = some ⟨.rparen, [')'], rest⟩ := rfl
  have htext : ("(" ++ text ++ ")").toList ++ rest = '(' :: (text.toList ++ ')' :: rest) := by
    rw [String.toList_append, String.toList_append, List.append_assoc, List.append_assoc]
    rfl
  rw [htext]
  refine ⟨_, _, ?_, .lexeme hopening (hs.append (.lexeme hclosing .done))⟩
  exact ⟨_, ts, _, rfl, rfl, hP, rfl⟩

theorem delimited_group (text : String) : Delimited ("(" ++ text ++ ")").toList := by
  rw [String.toList_append, String.toList_append, List.append_assoc]
  exact delimited_cons.2 rfl

/-! ## Single tokens -/

/-- What holds of every token of a kind and a text holds of the one token of the text. -/
theorem single {kind : TokenKind} {written : String} {P : Token → Prop}
    (h : Spells text (Lone kind written)) (hP : ∀ t, t.kind = kind → t.text = written → P t) :
    Spells text fun ts => ∃ t, ts = [t] ∧ P t := by
  apply h.mono
  intro ts hts
  obtain ⟨t, rfl, hk, ht⟩ := hts
  exact ⟨t, rfl, hP t hk ht⟩

/-- A text that is a lexeme is one token. -/
theorem lone {kind : TokenKind} {written : String} (h : Lexeme.IsLexeme kind text.toList)
    (htext : ∀ rest, (Lexeme.mk kind text.toList rest).text true = written) :
    Spells text (Lone kind written) := by
  intro p rest hrest
  exact ⟨_, _, ⟨_, rfl, rfl, htext rest⟩, .lexeme (h.front?_delimited hrest) .done⟩

/-- A text in upper case that is no string is the text of its token. -/
theorem lone_upper {kind : TokenKind} (hkind : kind ≠ .string) (hupper : upperAscii text = text)
    (h : Lexeme.IsLexeme kind text.toList) : Spells text (Lone kind text) := by
  refine lone h fun rest => ?_
  rw [Lexeme.text_of_ne_string hkind, String.ofList_toList, hupper]

theorem word {kind : TokenKind} (hname : Lexeme.isName kind text = true)
    (hkind : kind ≠ .string) : Spells text (Lone kind text) := by
  simp only [Lexeme.isName, Bool.and_eq_true, beq_iff_eq] at hname
  obtain ⟨⟨hword, hupper⟩, hclass⟩ := hname
  have hlexeme := Lexeme.IsLexeme.word hword
  rw [String.ofList_toList, hupper, hclass] at hlexeme
  exact lone_upper hkind hupper hlexeme

theorem number (h : NumberShape text.toList) : Spells text (Lone .number text) := by
  refine lone_upper (by decide) ?_ (Lexeme.isLexeme_of_numberShape h)
  rw [upperAscii, Lexeme.map_toUpper_number h, String.ofList_toList]

/-- A string in quotes that it does not contain. -/
theorem string {quote : Char} (hq : Lexeme.isQuote quote = true) (htext : quote ∉ text.toList) :
    Spells (String.ofList (quote :: (text.toList ++ [quote])))
      (Lone .string (String.ofList (quote :: (text.toList ++ [quote])))) := by
  refine lone ?_ fun rest => ?_
  · rw [String.toList_ofList]
    exact .string hq htext
  · rw [String.toList_ofList]
    rfl

theorem comparator (op : Comparator) : Spells op.symbol (Lone .comparisonOp op.symbol) :=
  lone_upper (by decide) (by cases op <;> decide) (Lexeme.isLexeme_comparator op)

theorem star : Spells "*" (Lone .wildcard "*") :=
  lone_upper (by decide) (by decide) (.sign (by decide))

end Spells

end Screening.Token
