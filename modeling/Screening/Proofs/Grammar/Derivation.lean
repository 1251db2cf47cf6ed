import Screening.Syntax.Grammar
import Screening.Token.Lexeme

/-!
# Derivations

The grammar said without a reader: which token lists a symbol derives, and the rule that each
derivation stands for. Nothing here looks ahead, chooses or fails.

A derivation carries a budget: at most so many groups and negations enclose one another in it.
-/

namespace Screening.Grammar

/-! ## Symbols -/

/-- A symbol of the grammar. A chain of disjunctions is a whole expression and has chains of
conjunctions as operands, whose own operands are factors. -/
inductive Symbol
  | chain (op : Junction)
  | factor
  | comparison
  | atom

/-- What stands between the operators of a chain. -/
def operandOf : Junction → Symbol
  | .or => .chain .and
  | .and => .factor

/-! ## Single tokens -/

theorem isLogic_iff {op : LogicOp} {t : Token} :
    isLogic op t = true ↔ t.kind = .logicOp ∧ t.text = op.name := by
  simp [isLogic]

/-- The token stands for a literal. A number is narrowed, a string loses its quotes, and a bare
word is a string in lower case. -/
inductive Denotes : Token → Literal → Prop
  | number {t v} : t.kind = .number → Literal.ofNumberText? t.text = some v → Denotes t v
  | string {t quote body} : t.kind = .string → Lexeme.isQuote quote = true →
      t.text.toList = quote :: (body ++ [quote]) → Denotes t (.string (String.ofList body))
  | bool {t} : t.kind = .bool → Denotes t (.bool (t.text == "TRUE"))
  | word {t} : t.kind = .identifier → Denotes t (.string (Text.lower t.text))

/-- The token stands for an aggregate's argument. -/
inductive Argues : Token → AggregateOperand → Prop
  | field {t name} : t.kind = .field → t.text = name.name → Argues t (.field name)
  | wildcard {t} : t.kind = .wildcard → Argues t .wildcard

/-- The token is a comparator. -/
structure Compares (t : Token) (op : Comparator) : Prop where
  kind : t.kind = .comparisonOp
  text : Comparator.ofSymbol? t.text = some op

/-! ## Productions -/

/-- A further operand of a chain: its operator, its tokens and its rule. -/
structure Link where
  joint : Token
  tokens : List Token
  rule : Rule

/-- All tokens of a link. -/
def Link.span (link : Link) : List Token := link.joint :: link.tokens

/-- `Derives symbol budget tokens rule`: the symbol derives exactly these tokens, at most
`budget` groups and negations enclose one another, and the derivation stands for `rule`. -/
inductive Derives : Symbol → Nat → List Token → Rule → Prop
  | literal {d t v} : Denotes t v → Derives .atom d [t] (.literal v)
  | field {d t name} : t.kind = .field → t.text = name.name → Derives .atom d [t] (.field name)
  | aggregate {d t opening arg closing function operand} :
      t.kind = .aggregateFunction → t.text = AggregateFunction.name function →
      opening.kind = .lparen → Argues arg operand → closing.kind = .rparen →
      Derives .atom d [t, opening, arg, closing] (.aggregate ⟨function, operand⟩)
  | group {d opening ts closing rule} :
      opening.kind = .lparen → Derives (.chain .or) d ts rule → closing.kind = .rparen →
      Derives .atom (d + 1) (opening :: (ts ++ [closing])) rule
  | operand {d ts rule} : Derives .atom d ts rule → Derives .comparison d ts rule
  | compare {d ls t rs op left right} :
      Derives .atom d ls left → Compares t op → Derives .atom d rs right →
      Derives .comparison d (ls ++ t :: rs) (.comparison op left right)
  | plain {d ts rule} : Derives .comparison d ts rule → Derives .factor d ts rule
  | negation {d t ts rule} :
      isLogic .not t = true → Derives .factor d ts rule → rule.isCondition = true →
      Derives .factor (d + 1) (t :: ts) (.negation rule)
  | single {op d ts rule} : Derives (operandOf op) d ts rule → Derives (.chain op) d ts rule
  /-- A run of one operator is one flat node. -/
  | run {op d ts first} {second : Link} {more : List Link} :
      Derives (operandOf op) d ts first → first.isCondition = true →
      (∀ link ∈ second :: more, isLogic op.op link.joint = true) →
      (∀ link ∈ second :: more, Derives (operandOf op) d link.tokens link.rule) →
      (∀ link ∈ second :: more, link.rule.isCondition = true) →
      Derives (.chain op) d (ts ++ (second :: more).flatMap Link.span)
        (.junction op first second.rule (more.map Link.rule))

/-- What the entry of a category derives. A threshold rule is a comparison node, a pattern rule
compares an aggregate with a literal, a composite rule is any expression. -/
inductive Generates : Category → Nat → List Token → Rule → Prop
  | threshold {d ts op left right} : Derives .comparison d ts (.comparison op left right) →
      Generates .threshold d ts (.comparison op left right)
  | pattern {d ls t rs op call v} :
      Derives .atom d ls (.aggregate call) → Compares t op → Derives .atom d rs (.literal v) →
      Generates .pattern d (ls ++ t :: rs) (.comparison op (.aggregate call) (.literal v))
  | composite {d ts rule} : Derives (.chain .or) d ts rule → Generates .composite d ts rule

/-! ## Budgets -/

/-- A derivation within a budget is one within every greater budget. -/
theorem Derives.mono {symbol d e ts rule} (h : Derives symbol d ts rule) (hde : d ≤ e) :
    Derives symbol e ts rule := by
  induction h generalizing e with
  | literal h => exact .literal h
  | field hk ht => exact .field hk ht
  | aggregate hk ht ho ha hc => exact .aggregate hk ht ho ha hc
  | group ho _ hc ih =>
    obtain ⟨e, rfl⟩ := Nat.exists_eq_add_of_le' (Nat.le_of_add_left_le hde)
    exact .group ho (ih (by omega)) hc
  | operand _ ih => exact .operand (ih hde)
  | compare _ ht _ ihl ihr => exact .compare (ihl hde) ht (ihr hde)
  | plain _ ih => exact .plain (ih hde)
  | negation ht _ hc ih =>
    obtain ⟨e, rfl⟩ := Nat.exists_eq_add_of_le' (Nat.le_of_add_left_le hde)
    exact .negation ht (ih (by omega)) hc
  | single _ ih => exact .single (ih hde)
  | run _ hc hj _ hcs ih ihs => exact .run (ih hde) hc hj (fun link hl => ihs link hl hde) hcs

/-! ## First tokens -/

/-- What an atom or a comparison derives begins with a token that is no logical operator. -/
theorem Derives.cons {symbol d ts rule} (h : Derives symbol d ts rule)
    (hs : symbol = .atom ∨ symbol = .comparison) :
    ∃ t rest, ts = t :: rest ∧ t.kind ≠ .logicOp := by
  induction h with
  | literal h => cases h <;> exact ⟨_, _, rfl, by simp [*]⟩
  | field hk => exact ⟨_, _, rfl, by simp [hk]⟩
  | aggregate hk => exact ⟨_, _, rfl, by simp [hk]⟩
  | group ho => exact ⟨_, _, rfl, by simp [ho]⟩
  | operand _ ih => exact ih (.inl rfl)
  | compare _ _ _ ih =>
    obtain ⟨t, rest, rfl, ht⟩ := ih (.inl rfl)
    exact ⟨t, _, rfl, ht⟩
  | plain => simp at hs
  | negation => simp at hs
  | single => simp at hs
  | run => simp at hs

end Screening.Grammar
