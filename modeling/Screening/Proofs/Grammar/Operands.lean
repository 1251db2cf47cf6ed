import Screening.Proofs.Grammar.Gathered
import Screening.Proofs.Rule.Equality
import Screening.Proofs.Rule.Fields
import Screening.Token.Scan

/-!
# Operands

A tree keeps every operand of the expression that it was read from, once and in its place. Operands are
literals, fields and aggregates: the leaves that are met in pre-order are the operands among the tokens
from left to right.
-/

namespace Screening

/-! ## Operands of trees -/

namespace Rule

/-- A literal, a field or an aggregate. -/
def isOperand : Rule → Bool
  | .literal _ | .field _ | .aggregate _ => true
  | _ => false

/-- The operands of a rule in the order in which they are met. -/
def operands (rule : Rule) : List Rule := rule.nodes.filter isOperand

end Rule

/-! ## Operands of tokens -/

/-- The kinds of tokens that are operands by themselves. -/
def TokenKind.isOperand : TokenKind → Bool
  | number | string | bool | identifier | field => true
  | _ => false

namespace Token

/-- The value of a token that is an operand by itself, if it has one. -/
def value? (t : Token) : Option Rule :=
  match t.kind with
  | .number => (Literal.ofNumberText? t.text).map .literal
  | .string => (Grammar.unquote? t.text).map fun body => .literal (.string body)
  | .bool => some (.literal (.bool (t.text == "TRUE")))
  | .identifier => some (.literal (.string (Text.lower t.text)))
  | .field => (Named.find? t.text).map .field
  | _ => none

/-- The argument that a token is, if it is one. -/
def argument? (t : Token) : Option AggregateOperand :=
  match t.kind with
  | .field => (Named.find? t.text).map .field
  | .wildcard => some .wildcard
  | _ => none

/-- The value of a call of the function `t` with the argument `arg`, if it has one. -/
def call? (t arg : Token) : Option Rule := do
  return .aggregate ⟨← Named.find? t.text, ← arg.argument?⟩

/-- What a token gives by itself: its value if it is an operand, else nothing. -/
def alone (t : Token) : List (Option Rule) := if t.kind.isOperand then [t.value?] else []

/-- The values of the operands among tokens, from left to right. The name of an aggregate function is
one operand with the three tokens behind it: its argument in parentheses. -/
def operandValues : List Token → List (Option Rule)
  | t :: opening :: arg :: closing :: rest =>
    if t.kind = .aggregateFunction then t.call? arg :: operandValues rest
    else t.alone ++ operandValues (opening :: arg :: closing :: rest)
  | t :: rest => t.alone ++ operandValues rest
  | [] => []

/-- The texts of the fields among tokens, those in calls included. -/
def fieldTexts (ts : List Token) : List String := (ts.filter (·.kind = .field)).map text

theorem operandValues_cons {t : Token} (h : t.kind ≠ .aggregateFunction) (ts : List Token) :
    operandValues (t :: ts) = t.alone ++ operandValues ts := by
  match ts with
  | [] => rfl
  | [_] => rfl
  | [_, _] => rfl
  | _ :: _ :: _ :: _ => rw [operandValues, if_neg h]

theorem operandValues_call {t : Token} (h : t.kind = .aggregateFunction)
    (opening arg closing : Token) (ts : List Token) :
    operandValues (t :: opening :: arg :: closing :: ts) = t.call? arg :: operandValues ts := by
  rw [operandValues, if_pos h]

theorem fieldTexts_cons {t : Token} (h : t.kind ≠ .field) (ts : List Token) :
    fieldTexts (t :: ts) = fieldTexts ts := by
  rw [fieldTexts, List.filter_cons_of_neg (by simpa using h)]
  rfl

end Token

namespace Grammar

open Token

/-! ## Values -/

theorem Denotes.value?_eq {t : Token} {v : Literal} (h : Denotes t v) :
    t.kind.isOperand = true ∧ t.value? = some (.literal v) := by
  cases h with
  | number hk hv => simp [hk, value?, TokenKind.isOperand, hv]
  | string hk hq htext => simp [hk, value?, TokenKind.isOperand, unquote?_quoted hq htext]
  | bool hk => simp [hk, value?, TokenKind.isOperand]
  | word hk => simp [hk, value?, TokenKind.isOperand]

theorem Denotes.kind_ne_field {t : Token} {v : Literal} (h : Denotes t v) : t.kind ≠ .field := by
  cases h <;> simp [*]

theorem Argues.argument?_eq {t : Token} {operand : AggregateOperand} (h : Argues t operand) :
    t.argument? = some operand := by
  cases h with
  | @field name hk ht =>
    have hfind : Named.find? t.text = some name := Named.find?_eq_some_iff.2 ht.symm
    simp [argument?, hk, hfind]
  | wildcard hk => simp [argument?, hk]

/-- The values of the operands among tokens are the operands of the tree. -/
theorem gathers_operands : Gathers (fun rule => (Option.guard Rule.isOperand rule).map some)
    operandValues where
  nil := rfl
  literal {t v} h us := by
    obtain ⟨hk, hv⟩ := h.value?_eq
    rw [operandValues_cons (by rintro hf; simp [hf, TokenKind.isOperand] at hk), alone, if_pos hk, hv]
    rfl
  field {t name} hk ht us := by
    have hfind : Named.find? t.text = some name := Named.find?_eq_some_iff.2 ht.symm
    rw [operandValues_cons (by simp [hk]), alone, value?, hk, hfind]
    rfl
  aggregate {t opening arg closing function operand} hk ht _ ha _ us := by
    rw [operandValues_call hk, call?, ha.argument?_eq, Named.find?_eq_some_iff.2 ht.symm]
    rfl
  joint {t} hk us := by
    rw [operandValues_cons (by rintro hf; simp [hf, TokenKind.joins] at hk), alone, if_neg]
    · rfl
    · intro ho
      cases h : t.kind <;> simp [h, TokenKind.joins, TokenKind.isOperand] at hk ho
  inner {rule} h := by
    cases rule <;> first | rfl | cases h

/-- The texts of the fields among tokens are the names of the fields that the nodes speak of. -/
theorem gathers_fields : Gathers (fun rule => rule.field?.map Field.name) fieldTexts where
  nil := rfl
  literal h us := by
    rw [fieldTexts_cons h.kind_ne_field]
    rfl
  field hk ht us := by
    rw [fieldTexts, List.filter_cons_of_pos (by simpa using hk), List.map_cons, ht]
    rfl
  aggregate hk _ ho ha hclose us := by
    rw [fieldTexts_cons (by simp [hk]), fieldTexts_cons (by simp [ho])]
    cases ha with
    | field hk ht =>
      rw [fieldTexts, List.filter_cons_of_pos (by simpa using hk), List.map_cons, ht,
        ← fieldTexts, fieldTexts_cons (by simp [hclose])]
      rfl
    | wildcard hk =>
      rw [fieldTexts_cons (by simp [hk]), fieldTexts_cons (by simp [hclose])]
      rfl
  joint hk us := fieldTexts_cons (by rintro hf; simp [hf, TokenKind.joins] at hk) us
  inner {rule} h := by
    cases rule <;> first | rfl | cases h

end Grammar

/-! ## Trees that were read -/

namespace Grammar

/-- A tree that was read keeps every operand, once and in order: the literals, fields and aggregates met
in pre-order are the values of the operands among the tokens. The fields of the tree are the texts of
the field tokens without later repetitions. -/
theorem operands_of_read (s : Setting) (ts : List Token) (rule : Rule) (h : read s ts = .ok rule) :
    rule.operands.map some = Token.operandValues ts ∧
      rule.fields.map Field.name = (Token.fieldTexts ts).eraseDups := by
  constructor
  · rw [gathers_operands.of_read h, Rule.operands, ← List.filterMap_eq_filter,
      List.map_filterMap]
  · rw [Rule.map_name_fields, gathers_fields.of_read h]

/-- A field before and behind a call, a negated group, a word and a string. -/
theorem operands_of_read_repeated :
    ∃ ts rule,
      Token.scan "AMOUNT > SUM(TIME) OR NOT (TIME = night AND AMOUNT != 'x')" = .ok ts ∧
      read ⟨.composite, 2, 0⟩ ts = .ok rule ∧
      rule.operands.map some = [some (.field .amount), some (.aggregate ⟨.sum, .field .time⟩),
        some (.field .time), some (.literal (.string "night")), some (.field .amount),
        some (.literal (.string "x"))] ∧
      rule.fields.map Field.name = ["AMOUNT", "TIME"] := by
  let rule : Rule := .junction .or
    (.comparison .greaterThan (.field .amount) (.aggregate ⟨.sum, .field .time⟩))
    (.negation (.junction .and
      (.comparison .equal (.field .time) (.literal (.string "night")))
      (.comparison .notEqual (.field .amount) (.literal (.string "x"))) [])) []
  have hrun : (Token.scan "AMOUNT > SUM(TIME) OR NOT (TIME = night AND AMOUNT != 'x')").map
      (fun ts => (decide (read ⟨.composite, 2, 0⟩ ts = .ok rule), Token.operandValues ts,
        Token.fieldTexts ts)) = .ok (true, rule.operands.map some,
          ["AMOUNT", "TIME", "TIME", "AMOUNT"]) := by
    decide +kernel
  cases hscan : Token.scan "AMOUNT > SUM(TIME) OR NOT (TIME = night AND AMOUNT != 'x')" with
  | error e =>
    rw [hscan] at hrun
    cases hrun
  | ok ts =>
    rw [hscan] at hrun
    obtain ⟨hread, htokens⟩ := Prod.mk.inj (Except.ok.inj hrun)
    obtain ⟨hvalues, htexts⟩ := Prod.mk.inj htokens
    have hread : read ⟨.composite, 2, 0⟩ ts = .ok rule := of_decide_eq_true hread
    obtain ⟨hoperands, hfields⟩ := operands_of_read _ ts rule hread
    refine ⟨ts, rule, rfl, hread, hoperands.trans (hvalues.trans rfl), ?_⟩
    rw [hfields, htexts]
    decide

end Grammar

end Screening
