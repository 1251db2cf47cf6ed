import Screening.Proofs.Compile.Stages
import Screening.Proofs.Grammar.Refused
import Screening.Proofs.Rule.Stable
import Screening.Proofs.Token.Coverage
import Screening.Proofs.Token.Respaced

/-!
# Legible tokens

The scanner gives the reader only texts that the reader understands: what the scanner takes for a number,
a string, a name or a symbol the reader takes for one too. So of the faults that are about the text of a
token only one is ever reported, that a number is beyond what binary64 holds.
-/

namespace Screening

open Number Text

namespace Token

/-! ## What a kind promises -/

/-- The reader understands the text of the token. Tokens of the other kinds are read whatever their
text is. -/
structure Legible (t : Token) : Prop where
  /-- A number is a numeral, and it has a literal unless its value is rounded to infinity. -/
  number : t.kind = .number → ∃ n : Scanned, t.text = n.text ∧
    numeral? t.text.toList = some (.decimal n.decimal) ∧
    (Literal.ofNumberText? t.text = none ↔ Binary64.overflow ≤ |n.value|)
  /-- A string is in quotes of one sort. -/
  string : t.kind = .string → t.Quoted
  bool : t.kind = .bool → t.text = "TRUE" ∨ t.text = "FALSE"
  function : t.kind = .aggregateFunction → ∃ f : AggregateFunction, Named.find? t.text = some f
  field : t.kind = .field → ∃ f : Field, Named.find? t.text = some f
  logicOp : t.kind = .logicOp → t.text = "AND" ∨ t.text = "OR" ∨ t.text = "NOT"
  comparator : t.kind = .comparisonOp → ∃ op, Comparator.ofSymbol? t.text = some op

end Token

/-! ## Lexemes -/

namespace Number.Scanned

theorem ofNumberText?_eq_none_iff (n : Scanned) :
    Literal.ofNumberText? n.text = none ↔ Binary64.overflow ≤ |n.value| := by
  rw [Literal.ofNumberText?_eq_none_iff, text, String.toList_ofList, numeral?_chars]
  constructor
  · intro h
    exact h n.decimal rfl
  · intro h d hd
    cases hd
    exact h

end Number.Scanned

namespace Lexeme

/-- A word is classified as a truth value or as a name only if it is one. -/
theorem isName_of_classify (word : String) :
    (classify word = .bool → word = "TRUE" ∨ word = "FALSE") ∧
      (classify word = .aggregateFunction → Named.isName AggregateFunction word = true) ∧
      (classify word = .field → Named.isName Field word = true) ∧
      (classify word = .logicOp → Named.isName LogicOp word = true) := by
  rw [classify]
  split
  · next h => simp [h]
  · split
    · next h => simp [h]
    · split
      · next h => simp [h]
      · split
        · next h => simp [h]
        · simp

/-- No sign has a kind of words, and every comparison is the symbol of a comparator. -/
theorem signs_legible : ∀ sign ∈ signs, sign.1.isWord = false ∧
    (sign.1 = .comparisonOp → (Comparator.ofSymbol? (String.ofList sign.2)).isSome = true) := by
  decide

/-- The kind of a word is that of its upper case. -/
theorem IsLexeme.classify {kind : TokenKind} {raw : List Char} (h : IsLexeme kind raw)
    (hword : kind.isWord = true) : Lexeme.classify (upperAscii (String.ofList raw)) = kind := by
  cases h with
  | whole => cases hword
  | pointed => cases hword
  | string => cases hword
  | word => rfl
  | sign hs =>
    rw [(signs_legible _ hs).1] at hword
    cases hword

/-- A lexeme that compares is the symbol of a comparator. -/
theorem IsLexeme.exists_comparator {raw : List Char} (h : IsLexeme .comparisonOp raw) :
    ∃ op, Comparator.ofSymbol? (String.ofList raw) = some op := by
  generalize hk : TokenKind.comparisonOp = kind at h
  cases h with
  | sign hs => exact Option.isSome_iff_exists.1 ((signs_legible _ hs).2 hk.symm)
  | word =>
    -- a word goes on with a letter, and no comparison does
    have hon := goesOn_classify (upperAscii (String.ofList raw)) raw 'A'
    rw [← hk] at hon
    cases hon
  | _ => cases hk

/-- A lexeme that is a string can be taken out of its quotes. -/
theorem IsLexeme.exists_unquote {raw : List Char} (h : IsLexeme .string raw) :
    ∃ body, Grammar.unquote? (String.ofList raw) = some body := by
  generalize hk : TokenKind.string = kind at h
  cases h with
  | @string quote body hq _ =>
    exact ⟨String.ofList body, Grammar.unquote?_quoted hq (String.toList_ofList ..)⟩
  | word => exact absurd hk.symm (classify_ne_string _)
  | sign hs =>
    have hall : ∀ sign ∈ signs, sign.1 ≠ .string := by decide
    exact absurd hk.symm (hall _ hs)
  | _ => cases hk

end Lexeme

namespace Token

/-! ## Tokens -/

/-- A word has the class that its text has. -/
theorem Respells.classify {t : Token} (h : t.Respells) (hword : t.kind.isWord = true) :
    Lexeme.classify t.text = t.kind := by
  have hne : t.kind ≠ .string := by
    rintro hs
    rw [hs] at hword
    cases hword
  have hclass := h.isLexeme.classify hword
  rwa [String.ofList_toList, h.text hne] at hclass

/-- A token whose text is its lexeme again is legible. -/
theorem Respells.legible {t : Token} (h : t.Respells) : t.Legible := by
  have hlexeme := h.isLexeme
  have hclassify : ∀ kind : TokenKind, kind.isWord = true → t.kind = kind →
      Lexeme.classify t.text = kind := by
    rintro kind hword rfl
    exact h.classify hword
  obtain ⟨hbool, hfunction, hfield, hlogic⟩ := Lexeme.isName_of_classify t.text
  constructor
  case number =>
    intro hk
    rw [hk] at hlexeme
    obtain ⟨n, hn⟩ := Scanned.isLexeme_iff.1 hlexeme
    have htext : t.text = n.text := by rw [Scanned.text, hn, String.ofList_toList]
    refine ⟨n, htext, ?_, ?_⟩
    · rw [← hn]
      exact n.numeral?_chars
    · rw [htext]
      exact n.ofNumberText?_eq_none_iff
  case string =>
    intro hk
    rw [hk] at hlexeme
    obtain ⟨body, hbody⟩ := hlexeme.exists_unquote
    rw [String.ofList_toList] at hbody
    exact ⟨body, hbody⟩
  case bool => exact fun hk => hbool (hclassify .bool rfl hk)
  case function =>
    exact fun hk => Option.isSome_iff_exists.1 (hfunction (hclassify .aggregateFunction rfl hk))
  case field => exact fun hk => Option.isSome_iff_exists.1 (hfield (hclassify .field rfl hk))
  case logicOp =>
    intro hk
    obtain ⟨op, hop⟩ := Option.isSome_iff_exists.1 (hlogic (hclassify .logicOp rfl hk))
    rw [← Named.name_of_find? hop]
    cases op with
    | and => exact .inl rfl
    | or => exact .inr (.inl rfl)
    | not => exact .inr (.inr rfl)
  case comparator =>
    intro hk
    rw [hk] at hlexeme
    simpa only [String.ofList_toList] using hlexeme.exists_comparator

/-- A string in upper case is in its quotes as before, and other tokens do not change. -/
theorem Legible.raised {t : Token} (h : t.Legible) : t.raised.Legible := by
  by_cases hk : t.kind = .string
  · obtain ⟨body, hbody⟩ := h.string hk
    have hkind : t.raised.kind = .string := by rw [kind_raised, hk]
    constructor
    case string =>
      intro _
      refine ⟨upper body, ?_⟩
      rw [text_raised hk]
      exact unquote?_upper hbody
    all_goals
      intro hother
      cases hkind.symm.trans hother
  · rwa [raised_of_ne_string hk]

/-- The text of a scanned token is its lexeme again, but for a string that was put in upper case. -/
theorem exists_respells_of_scan {text : String} {keepCase : Bool} {ts : List Token}
    (h : scan text keepCase = .ok ts) {t : Token} (ht : t ∈ ts) :
    ∃ u : Token, u.Respells ∧ (t = u ∨ t = u.raised) := by
  have hkept : ∀ {us}, scan text = .ok us → ∀ u ∈ us, u.Respells := by
    intro us hus
    obtain ⟨_, hscans⟩ := scan_eq_ok_iff.1 hus
    exact hscans.respells
  cases keepCase with
  | true => exact ⟨t, hkept h t ht, .inl rfl⟩
  | false =>
    rw [scan_raised] at h
    cases hscan : scan text with
    | error e =>
      rw [hscan] at h
      cases h
    | ok us =>
      rw [hscan] at h
      cases h
      obtain ⟨u, hu, rfl⟩ := List.mem_map.1 ht
      exact ⟨u, hkept hscan u hu, .inr rfl⟩

/-- Every token that is scanned is legible, whether strings keep their case or not. -/
theorem legible_of_scan {text : String} {keepCase : Bool} {ts : List Token}
    (h : scan text keepCase = .ok ts) : ∀ t ∈ ts, t.Legible := by
  intro t ht
  obtain ⟨u, hu, rfl | rfl⟩ := exists_respells_of_scan h ht
  · exact hu.legible
  · exact hu.legible.raised

/-- The one fault about the text of a legible token is that a number is out of range. -/
theorem Legible.fault_of_refused {t : Token} (h : t.Legible) {fault : SyntaxFault}
    (hr : t.Refused fault) : fault = .numberOutOfRange t.text ∧ t.kind = .number ∧
      ∃ n : Scanned, n.text = t.text ∧ Binary64.overflow ≤ |n.value| := by
  cases hr with
  | outOfRange hk hnone =>
    obtain ⟨n, htext, -, hiff⟩ := h.number hk
    exact ⟨rfl, hk, n, htext.symm, hiff.1 hnone⟩
  | invalid hk hnone =>
    obtain ⟨n, -, hnumeral, -⟩ := h.number hk
    cases hnone.symm.trans hnumeral
  | string hk hnone =>
    obtain ⟨body, hbody⟩ := h.string hk
    cases hnone.symm.trans hbody
  | field hk hnone =>
    obtain ⟨f, hf⟩ := h.field hk
    cases hnone.symm.trans hf
  | function hk hnone =>
    obtain ⟨f, hf⟩ := h.function hk
    cases hnone.symm.trans hf
  | comparator hk hnone =>
    obtain ⟨op, hop⟩ := h.comparator hk
    cases hnone.symm.trans hop

end Token

/-! ## Compiling -/

/-- The scanner and the reader agree on which texts are numbers, strings, names and symbols. -/
structure Understood (options : CompileOptions) (text : String) (category : Category) : Prop where
  /-- Every token of the text is one whose text the reader understands. -/
  legible : ∀ ts, Token.scan text options.preserveLiteralCase = .ok ts → ∀ t ∈ ts, t.Legible
  /-- Compiling never fails for a token that would be none of its kind. -/
  fault : ∀ e, compile options text category = .error (.grammatical e) → ∀ given,
    e.fault ≠ .numberInvalid given ∧ e.fault ≠ .malformedString given ∧
      e.fault ≠ .unknownField given ∧ e.fault ≠ .unknownFunction given ∧
      e.fault ≠ .unknownComparator given
  /-- It fails for a number only if the value of that number is rounded to infinity. -/
  outOfRange : ∀ e given, compile options text category = .error (.grammatical e) →
    e.fault = .numberOutOfRange given →
    ∃ ts, ∃ t ∈ ts, Token.scan text options.preserveLiteralCase = .ok ts ∧ t.kind = .number ∧
      t.text = given ∧ e.position = some t.position ∧
      ∃ n : Scanned, n.text = given ∧ Binary64.overflow ≤ |n.value|

section

variable {options : CompileOptions} {text : String} {category : Category}

/-- A syntax error about the text of a token is about a number of the text. -/
theorem outOfRange_of_compile {e : SyntaxError}
    (h : compile options text category = .error (.grammatical e))
    (habout : e.fault.isAboutText = true) :
    ∃ ts, ∃ t ∈ ts, Token.scan text options.preserveLiteralCase = .ok ts ∧ t.kind = .number ∧
      e.fault = .numberOutOfRange t.text ∧ e.position = some t.position ∧
      ∃ n : Scanned, n.text = t.text ∧ Binary64.overflow ≤ |n.value| := by
  rw [compile_eq_admitted] at h
  rcases bind_eq_error.1 h with hadmitted | ⟨ts, hadmitted, h⟩
  · rw [fault_of_admitted hadmitted] at habout
    cases habout
  · obtain ⟨f, hread, hf⟩ := mapError_eq_error.1 h
    cases hf
    have hscan := scan_of_admitted hadmitted
    obtain ⟨t, ht, hrefused, hposition⟩ := Grammar.refused_of_read hread habout
    obtain ⟨hfault, hk, hn⟩ := (Token.legible_of_scan hscan t ht).fault_of_refused hrefused
    exact ⟨ts, t, ht, hscan, hk, hfault, hposition, hn⟩

end

/-- The scanner gives the reader only texts that it understands, for every text, all options and every
category. Compiling fails for the text of a token only if that is a number out of range. -/
theorem understood (options : CompileOptions) (text : String) (category : Category) :
    Understood options text category where
  legible _ h := Token.legible_of_scan h
  fault e h given := by
    -- all five are faults about a text, and the only one of those is another
    have hother : ∀ fault : SyntaxFault, fault.isAboutText = true →
        (∀ text, fault ≠ .numberOutOfRange text) → e.fault ≠ fault := by
      rintro fault habout hne rfl
      obtain ⟨_, t, -, -, -, hfault, -⟩ := outOfRange_of_compile h habout
      exact hne t.text hfault
    exact ⟨hother _ rfl nofun, hother _ rfl nofun, hother _ rfl nofun, hother _ rfl nofun,
      hother _ rfl nofun⟩
  outOfRange e given h hfault := by
    obtain ⟨ts, t, ht, hscan, hk, hf, hposition, hn⟩ :=
      outOfRange_of_compile h (by rw [hfault]; rfl)
    rw [hfault] at hf
    obtain rfl := SyntaxFault.numberOutOfRange.inj hf
    exact ⟨ts, t, ht, hscan, hk, rfl, hposition, hn⟩

end Screening
