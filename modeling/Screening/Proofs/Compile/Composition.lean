import Screening.Proofs.Compile.Canonical
import Screening.Proofs.Grammar.Parts

/-!
# Composition

Texts that compile on their own can be put in parentheses and joined by a logical operator. What
comes out is the node of the operator over the rules of the texts, each kept as it was: nothing of
a text is read differently because of what stands around it, and no chain in parentheses is made
part of the chain around it.
-/

namespace Screening

open Admission Grammar Token Text

/-! ## Composed texts -/

namespace Expression

/-- The text in parentheses. -/
def enclosed (text : String) : String := "(" ++ text ++ ")"

/-- The texts in parentheses with the operator between them. -/
def joined (op : Junction) (texts : List String) : String :=
  (" " ++ op.op.name ++ " ").intercalate (texts.map enclosed)

/-- The text in parentheses behind a negation. -/
def negated (text : String) : String := LogicOp.not.name ++ " " ++ enclosed text

example : joined .or ["a", "b", "c"] = "(a) OR (b) OR (c)" := by decide

theorem toList_enclosed_append (text : String) (rest : List Char) :
    (enclosed text).toList ++ rest = '(' :: (text.toList ++ ')' :: rest) := by
  simp [enclosed]

/-- A further text of a chain: the operator and the text in parentheses. -/
def linked (op : Junction) (text : String) : List Char :=
  ' ' :: (op.op.name.toList ++ ' ' :: (enclosed text).toList)

theorem toList_joined (op : Junction) (first : String) (more : List String) :
    (joined op (first :: more)).toList = (enclosed first).toList ++ more.flatMap (linked op) := by
  induction more generalizing first with
  | nil => simp [joined]
  | cons second more ih =>
    have hmore := ih second
    simp only [joined, List.map_cons, String.toList_intercalate] at hmore ⊢
    rw [List.intercalate_cons_cons, hmore]
    simp [linked]

end Expression

open Expression

/-! ## Scanning -/

variable {keepCase : Bool} {d : Nat}

/-- Wherever the text stands, it is scanned as a part that stands for the rule. -/
def ScansAsPart (keepCase : Bool) (d : Nat) (text : String) (rule : Rule) : Prop :=
  ∀ p rest, ∃ ts q, Part d ts rule ∧ Scans keepCase p (text.toList ++ rest) ts q rest

/-- What compiles without aggregates is a part once it is in parentheses. -/
theorem Passes.scansAsPart {options : CompileOptions} {text : String} {category : Category}
    {ts : List Token} {rule : Rule} (h : Passes options text category ts rule)
    (hcategory : category ≠ .pattern) :
    ScansAsPart options.preserveLiteralCase (options.maxDepth + 1) (enclosed text) rule := by
  obtain ⟨hfields, hbreach⟩ := check_eq_ok.1 h.check
  have hnone : has .aggregateFunction ts = false := by
    cases category with
    | threshold => exact (breach?_threshold.1 hbreach).2.1
    | pattern => exact absurd rfl hcategory
    | composite => exact (breach?_composite.1 hbreach).2
  have haggregate : ∀ t ∈ ts, t.kind ≠ .aggregateFunction := by
    intro t ht hk
    rw [has_iff.2 ⟨t, ht, hk⟩] at hnone
    cases hnone
  have hderives : Derives (.chain .or) options.maxDepth ts rule := by
    obtain ⟨symbol, hd⟩ := h.generates.derives
    exact hd.lift symbol.rank_le
  obtain ⟨q, hscans⟩ := scan_eq_ok_iff.1 h.scan
  intro p rest
  let opening : Lexeme := ⟨.lparen, ['('], text.toList ++ ')' :: rest⟩
  let closing : Lexeme := ⟨.rparen, [')'], rest⟩
  let n := p + byteLength opening.raw
  have hdelimited : Delimited (')' :: rest) := delimited_cons.2 rfl
  -- in front of the closing parenthesis the text is scanned as it is on its own
  have htext := hscans.moved hdelimited n
  have hclosing : Scans options.preserveLiteralCase (n + q) (')' :: rest)
      [closing.token options.preserveLiteralCase (n + q)] _ rest := .lexeme rfl .done
  have hgroup : Scans options.preserveLiteralCase p ('(' :: (text.toList ++ ')' :: rest))
      _ _ rest := @Scans.lexeme _ p _ opening _ _ _ rfl (htext.append hclosing)
  rw [← toList_enclosed_append] at hgroup
  refine ⟨_, _, ?_, hgroup⟩
  exact Part.group rfl (hderives.moved n) h.hasShape.isCondition
    (((unknownFields_eq_nil_iff haggregate).1 hfields).moved n)
    (List.forall_mem_map.2 haggregate) rfl

/-- The name of a logical operator in front of a space is its token. -/
theorem scans_logicOp (op : LogicOp) (p : Nat) (rest : List Char) :
    ∃ t q, isLogic op t = true ∧
      Scans keepCase p (op.name.toList ++ ' ' :: rest) [t] q (' ' :: rest) := by
  have hword : Lexeme.isWord op.name.toList = true := by cases op <;> decide
  have hupper : upperAscii op.name = op.name := by cases op <;> decide
  have hclass : Lexeme.classify op.name = .logicOp := by cases op <;> decide
  let x : Lexeme := ⟨.logicOp, op.name.toList, ' ' :: rest⟩
  have hx : Lexeme.front? (op.name.toList ++ ' ' :: rest) = some x := by
    have hlexeme := Lexeme.IsLexeme.word hword
    rw [String.ofList_toList, hupper, hclass] at hlexeme
    exact hlexeme.front?_delimited (delimited_cons.2 rfl)
  have htext : x.text keepCase = op.name := by
    rw [Lexeme.text_of_ne_string (by decide), String.ofList_toList, hupper]
  exact ⟨x.token keepCase p, _, isLogic_iff.2 ⟨rfl, htext⟩, .lexeme hx .done⟩

/-- The further texts of a chain are scanned as its links. -/
theorem scans_linked (op : Junction) {parts : List (String × Rule)}
    (h : ∀ part ∈ parts, ScansAsPart keepCase d (enclosed part.1) part.2) (p : Nat) :
    ∃ (links : List Link) (q : Nat), (∀ link ∈ links, link.Joins op d) ∧
      links.map Link.rule = parts.map Prod.snd ∧
      Scans keepCase p ((parts.map Prod.fst).flatMap (linked op))
        (links.flatMap Link.span) q [] := by
  induction parts generalizing p with
  | nil => exact ⟨[], p, by simp, rfl, .done⟩
  | cons part parts ih =>
    obtain ⟨hpart, hparts⟩ := List.forall_mem_cons.1 h
    let rest := (parts.map Prod.fst).flatMap (linked op)
    obtain ⟨t, q, ht, hop⟩ := @scans_logicOp keepCase op.op (p + ' '.utf8Size)
      ((enclosed part.1).toList ++ rest)
    obtain ⟨ts, r, hts, hscan⟩ := hpart (q + ' '.utf8Size) rest
    obtain ⟨links, s, hlinks, hrules, hmore⟩ := ih hparts r
    refine ⟨⟨t, ts, part.2⟩ :: links, s, ?_, ?_, ?_⟩
    · exact List.forall_mem_cons.2 ⟨⟨ht, hts⟩, hlinks⟩
    · rw [List.map_cons, List.map_cons, hrules]
    · have hcs : linked op part.1 ++ rest =
          ' ' :: (op.op.name.toList ++ ' ' :: ((enclosed part.1).toList ++ rest)) := by
        simp [linked]
      rw [List.map_cons, List.flatMap_cons, hcs]
      exact .space rfl (hop.append (.space rfl (hscan.append hmore)))

/-! ## Compiling -/

/-- A text that is scanned and admitted as a whole and stands for a rule compiles to it. -/
theorem compile_of_derives {options : CompileOptions} {text : String} {ts : List Token}
    {rule : Rule} (hopening : '(' ∈ text.toList)
    (hlength : text.utf8ByteSize ≤ options.maxLength)
    (hscan : Token.scan text options.preserveLiteralCase = .ok ts)
    (hcheck : check ts .composite = .ok ()) (hd : Derives (.chain .or) options.maxDepth ts rule) :
    compile options text .composite = .ok rule := by
  have hblank : Text.allBlank text = false := by
    rw [← Bool.not_eq_true, Text.allBlank, List.all_eq_true]
    intro hall
    exact absurd (hall _ hopening) (by decide)
  rw [compile_eq_read hblank hlength hscan hcheck]
  let s : Setting := ⟨.composite, options.maxDepth, text.utf8ByteSize⟩
  have hread : read s ts = .ok rule :=
    (Generates.composite hd).yields.eq_ok (Nat.lt_irrefl options.maxDepth)
  exact mapError_eq_ok.2 hread

/-- The text compiles to the rule as a threshold or composite rule, however long it may be. -/
def Compiles (keepCase : Bool) (d : Nat) (text : String) (rule : Rule) : Prop :=
  ∃ category maxLength, category ≠ .pattern ∧
    compile ⟨keepCase, d, maxLength⟩ text category = .ok rule

theorem Compiles.scansAsPart {text : String} {rule : Rule} (h : Compiles keepCase d text rule) :
    ScansAsPart keepCase (d + 1) (enclosed text) rule := by
  obtain ⟨category, maxLength, hcategory, hcompile⟩ := h
  obtain ⟨ts, hp⟩ := exists_passes hcompile
  exact hp.scansAsPart hcategory

theorem compile_joined {maxLength : Nat} {op : Junction} {first second : String × Rule}
    {more : List (String × Rule)}
    (h : ∀ part ∈ first :: second :: more, Compiles keepCase d part.1 part.2)
    (hlength : (joined op ((first :: second :: more).map Prod.fst)).utf8ByteSize ≤ maxLength) :
    compile ⟨keepCase, d + 1, maxLength⟩ (joined op ((first :: second :: more).map Prod.fst))
      .composite = .ok (.junction op first.2 second.2 (more.map Prod.snd)) := by
  obtain ⟨hfirst, hmore⟩ := List.forall_mem_cons.1 h
  let behind := ((second :: more).map Prod.fst).flatMap (linked op)
  have hcs : (joined op ((first :: second :: more).map Prod.fst)).toList =
      (enclosed first.1).toList ++ behind := toList_joined op first.1 _
  obtain ⟨ts, q, hts, hscan⟩ := hfirst.scansAsPart 0 behind
  obtain ⟨links, r, hlinks, hrules, hscans⟩ :=
    scans_linked op (fun part hp => (hmore part hp).scansAsPart) q
  -- as many links as further texts, and so there is one at least
  obtain ⟨link, links, rfl, hlink, hrest⟩ := List.map_eq_cons_iff.1 hrules
  rw [← hlink, ← hrest]
  refine compile_of_derives ?_ hlength ?_ (hts.check_run hlinks) (hts.run hlinks)
  · rw [hcs, toList_enclosed_append]
    exact List.mem_cons_self
  · refine scan_eq_ok_iff.2 ⟨r, ?_⟩
    rw [hcs]
    exact hscan.append hscans

theorem compile_negated {maxLength : Nat} {text : String} {rule : Rule}
    (h : Compiles keepCase d text rule) (hlength : (negated text).utf8ByteSize ≤ maxLength) :
    compile ⟨keepCase, d + 2, maxLength⟩ (negated text) .composite = .ok (.negation rule) := by
  have hcs : (negated text).toList =
      LogicOp.not.name.toList ++ ' ' :: ((enclosed text).toList ++ []) := by
    simp [negated]
  obtain ⟨t, q, ht, hop⟩ := @scans_logicOp keepCase .not 0 ((enclosed text).toList ++ [])
  obtain ⟨ts, r, hts, hscan⟩ := h.scansAsPart (q + ' '.utf8Size) []
  refine compile_of_derives ?_ hlength ?_ (hts.check_negation ht) (hts.negation ht)
  · rw [hcs, toList_enclosed_append]
    simp
  · refine scan_eq_ok_iff.2 ⟨r, ?_⟩
    rw [hcs]
    exact hop.append (.space rfl hscan)

/-- Rules compose as texts. Texts that compile as threshold or composite rules are joined by one
operator into the flat node over their rules in order, with one level of nesting more than they
were given, and the negation of one takes two levels more. -/
theorem compile_composed (keepCase : Bool) (d maxLength : Nat) :
    (∀ (op : Junction) (first second : String × Rule) (more : List (String × Rule)),
      (∀ part ∈ first :: second :: more, Compiles keepCase d part.1 part.2) →
      (joined op ((first :: second :: more).map Prod.fst)).utf8ByteSize ≤ maxLength →
      compile ⟨keepCase, d + 1, maxLength⟩ (joined op ((first :: second :: more).map Prod.fst))
        .composite = .ok (.junction op first.2 second.2 (more.map Prod.snd))) ∧
    ∀ text rule, Compiles keepCase d text rule → (negated text).utf8ByteSize ≤ maxLength →
      compile ⟨keepCase, d + 2, maxLength⟩ (negated text) .composite = .ok (.negation rule) := by
  constructor
  · intro op first second more h hlength
    exact compile_joined h hlength
  · intro text rule h hlength
    exact compile_negated h hlength

/-- A comparison joined with a conjunction, which stays a node of its own, and the negation of
that conjunction. -/
theorem compile_composed_conjunction :
    let large : Rule := .comparison .greaterThan (.field .amount) (.literal (.int32 1))
    let late : Rule := .comparison .equal (.field .time) (.literal (.string "NIGHT"))
    let both : Rule := .junction .and late large []
    Compiles false 0 "amount > 1" large ∧ Compiles false 0 "time = 'Night' and amount > 1" both ∧
      (joined .and ["amount > 1", "time = 'Night' and amount > 1"]).utf8ByteSize ≤ 64 ∧
      compile ⟨false, 1, 64⟩ (joined .and ["amount > 1", "time = 'Night' and amount > 1"])
        .composite = .ok (.junction .and large both []) ∧
      (negated "time = 'Night' and amount > 1").utf8ByteSize ≤ 64 ∧
      compile ⟨false, 2, 64⟩ (negated "time = 'Night' and amount > 1") .composite =
        .ok (.negation both) := by
  intro large late both
  have hlarge : Compiles false 0 "amount > 1" large :=
    ⟨.threshold, 64, by decide, by decide +kernel⟩
  have hboth : Compiles false 0 "time = 'Night' and amount > 1" both :=
    ⟨.composite, 64, by decide, by decide +kernel⟩
  have hjoined :
      (joined .and ["amount > 1", "time = 'Night' and amount > 1"]).utf8ByteSize ≤ 64 := by decide
  have hnegated : (negated "time = 'Night' and amount > 1").utf8ByteSize ≤ 64 := by decide
  have h := compile_composed false 0 64
  refine ⟨hlarge, hboth, hjoined, ?_, hnegated, h.2 _ _ hboth hnegated⟩
  exact h.1 .and ("amount > 1", large) ("time = 'Night' and amount > 1", both) []
    (List.forall_mem_cons.2 ⟨hlarge, List.forall_mem_singleton.2 hboth⟩) hjoined

end Screening
