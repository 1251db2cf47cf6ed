import Screening.Rule.Builder
import Screening.Syntax.Fault
import Screening.Text.Case

/-!
# Grammar

Reading tokens as a rule. From the loosest to the tightest binding there are disjunctions,
conjunctions, negations, comparisons and operands. Every production looks at one token to
decide how to go on, and returns the tree it read with the tokens it left.

Groups and negations may enclose one another only so often. How often is left is the number on
which the productions recurse; within one level a chain recurses on the tokens left.
-/

namespace Screening.Grammar

/-- What a reading depends on besides the tokens. -/
structure Setting where
  category : Category
  maxDepth : Nat
  /-- The place that is given for the end of the tokens. -/
  finish : Nat

/-- What a production read, and the tokens it left. -/
abbrev Parsed (α : Type) := α × List Token

/-- Reads a rule off the front of the tokens. -/
abbrev Production := List Token → Except SyntaxError (Parsed Rule)

/-- What can be read inside a group or a negation. -/
inductive Inner
  | group
  | negated

variable (s : Setting)

/-! ## Errors and single tokens -/

/-- Fails at a place. -/
def fail {α : Type} (fault : SyntaxFault) (position : Nat) : Except SyntaxError α :=
  .error ⟨s.category, some position, fault⟩

/-- The place of the next token. -/
def place : List Token → Nat
  | t :: _ => t.position
  | [] => s.finish

/-- Takes a token of the given kind. -/
def expect (kind : TokenKind) (wanted : Wanted) : List Token → Except SyntaxError (Parsed Token)
  | t :: rest => if t.kind = kind then .ok (t, rest) else fail s (.found wanted t) t.position
  | [] => fail s (.unexpectedEnd wanted) s.finish

/-- Takes a comparator. -/
def comparator (wanted : Wanted) (ts : List Token) : Except SyntaxError (Parsed Comparator) := do
  let (t, rest) ← expect s .comparisonOp wanted ts
  match Comparator.ofSymbol? t.text with
  | some op => .ok (op, rest)
  | none => fail s (.unknownComparator t.text) t.position

/-- The field that a field token names. -/
def fieldOf (t : Token) : Except SyntaxError Field :=
  match Named.find? t.text with
  | some name => .ok name
  | none => fail s (.unknownField t.text) t.position

/-- Whether the token is this logical operator. -/
def isLogic (op : LogicOp) (t : Token) : Bool := t.kind == .logicOp && t.text == op.name

/-! ## Operands -/

/-- The characters between two quotes of one sort. -/
def between? (quote : Char) (cs : List Char) : Option (List Char) :=
  match cs with
  | c :: rest =>
    if c = quote ∧ rest.getLast? = some quote then some rest.dropLast else none
  | [] => none

/-- The text of a string without its quotes. -/
def unquote? (text : String) : Option String :=
  (between? '\x27' text.toList <|> between? '"' text.toList).map String.ofList

/-- The literal that a number token stands for. -/
def numberOf (t : Token) : Except SyntaxError Literal :=
  match Literal.ofNumberText? t.text with
  | some value => .ok value
  | none =>
    let fault := if (Number.numeral? t.text.toList).isSome then SyntaxFault.numberOutOfRange t.text
      else .numberInvalid t.text
    fail s fault t.position

/-- The argument of an aggregate function. -/
def argument (function : AggregateFunction) :
    List Token → Except SyntaxError (Parsed AggregateOperand)
  | [] => fail s (.unexpectedEnd .argument) s.finish
  | t :: rest =>
    match t.kind with
    | .field => do return (.field (← fieldOf s t), rest)
    | .wildcard => .ok (.wildcard, rest)
    | _ => fail s (.badArgument function t) t.position

/-- What follows the name `t` of an aggregate function. -/
def aggregate (t : Token) (ts : List Token) : Except SyntaxError (Parsed Rule) :=
  match Named.find? t.text with
  | none => fail s (.unknownFunction t.text) t.position
  | some function => do
    let (_, ts) ← expect s .lparen .openAfterFunction ts
    let (operand, ts) ← argument s function ts
    let (_, ts) ← expect s .rparen .closeArgument ts
    return (.aggregate ⟨function, operand⟩, ts)

/-- Reads what stands inside, given where it was opened and the tokens behind that. -/
abbrev InnerReader := Inner → Nat → Production

/-- An operand of a comparison: a literal, a field, an aggregate, or a group. -/
def atom (inner : InnerReader) : Production
  | [] => fail s (.unexpectedEnd .operand) s.finish
  | t :: rest =>
    match t.kind with
    | .number => do return (.literal (← numberOf s t), rest)
    | .string =>
      match unquote? t.text with
      | some body => .ok (.literal (.string body), rest)
      | none => fail s (.malformedString t.text) t.position
    | .bool => .ok (.literal (.bool (t.text == "TRUE")), rest)
    | .field => do return (.field (← fieldOf s t), rest)
    | .identifier => .ok (.literal (.string (Text.lower t.text)), rest)
    | .aggregateFunction => aggregate s t rest
    | .lparen => do
      let (rule, rest) ← inner .group t.position rest
      let (_, rest) ← expect s .rparen .closeGroup rest
      return (rule, rest)
    | .wildcard => fail s .strayWildcard t.position
    | .rparen | .comparisonOp | .logicOp => fail s (.noOperand t) t.position

/-- One operand, or two with a comparator between them. -/
def comparison (inner : InnerReader) (ts : List Token) : Except SyntaxError (Parsed Rule) := do
  let (left, rest) ← atom s inner ts
  if rest.head?.map Token.kind = some .comparisonOp then
    let (op, rest) ← comparator s .comparator rest
    let (right, rest) ← atom s inner rest
    return (.comparison op left right, rest)
  else return (left, rest)

/-! ## Logical operators -/

/-- Reads an operand of `op`, which must be a condition. -/
def condition (op : LogicOp) (operand : Production) (ts : List Token) :
    Except SyntaxError (Parsed Rule) := do
  let (rule, rest) ← operand ts
  if rule.isCondition then return (rule, rest)
  else fail s (.noCondition op rule) (place s ts)

/-- A negation, or what binds tighter. -/
def factor (inner : InnerReader) (ts : List Token) : Except SyntaxError (Parsed Rule) :=
  match ts with
  | [] => comparison s inner []
  | t :: rest =>
    if isLogic .not t then do
      let (rule, rest) ← condition s .not (inner .negated t.position) rest
      return (.negation rule, rest)
    else comparison s inner (t :: rest)

/-- The further operands of a chain, each behind the operator. A step uses up a token, so as
many steps as there are tokens are enough. -/
def moreOperands (op : Junction) (operand : Production) :
    (steps : Nat) → List Token → Except SyntaxError (Parsed (List Rule))
  | steps + 1, t :: ts =>
    if isLogic op.op t then do
      let (rule, rest) ← condition s op.op operand ts
      let (rules, rest) ← moreOperands op operand steps rest
      return (rule :: rules, rest)
    else .ok ([], t :: ts)
  | _, ts => .ok ([], ts)

/-- Where the operator stands, an operand at least is read behind it. -/
theorem ne_nil_of_moreOperands {op : Junction} {operand : Production} {steps : Nat} {t : Token}
    {ts : List Token} {rules rest} (ht : isLogic op.op t = true)
    (h : moreOperands s op operand (steps + 1) (t :: ts) = .ok (rules, rest)) : rules ≠ [] := by
  rintro rfl
  rw [moreOperands, if_pos ht] at h
  cases hfirst : condition s op.op operand ts with
  | error e =>
    rw [hfirst] at h
    cases h
  | ok x =>
    rw [hfirst] at h
    cases hrest : moreOperands s op operand steps x.2 with
    | error e => simp [hrest, Bind.bind, Except.bind] at h
    | ok y => simp [hrest, Bind.bind, Except.bind, Pure.pure, Except.pure] at h

/-- So a chain has two operands at least. -/
theorem two_le_length_of_moreOperands {op : Junction} {operand : Production} {steps : Nat}
    {t : Token} {ts : List Token} {rules rest} (first : Rule) (ht : isLogic op.op t = true)
    (h : moreOperands s op operand (steps + 1) (t :: ts) = .ok (rules, rest)) :
    2 ≤ (first :: rules).length :=
  Nat.succ_le_succ (List.length_pos_iff.2 (ne_nil_of_moreOperands s ht h))

/-- One operand, or two and more with `op` between them as one flat node. The first must be a
condition only if the operator follows it. -/
def chain (op : Junction) (operand : Production) (ts : List Token) :
    Except SyntaxError (Parsed Rule) := do
  let (first, rest) ← operand ts
  match rest with
  | [] => return (first, [])
  | t :: after =>
    if ht : isLogic op.op t then
      if first.isCondition then
        match hmore : moreOperands s op operand (after.length + 1) (t :: after) with
        | .ok (more, rest) =>
          .ok (.ofChain op (first :: more) (two_le_length_of_moreOperands s first ht hmore), rest)
        | .error e => .error e
      else fail s (.noCondition op.op first) (place s ts)
    else return (first, t :: after)

/-- A disjunction of conjunctions of negations and comparisons. -/
def expression (inner : InnerReader) (ts : List Token) : Except SyntaxError (Parsed Rule) :=
  chain s .or (chain s .and (factor s inner)) ts

/-! ## Nesting -/

/-- Reads inside a group or a negation while `room` more may be opened. -/
def innerAt : (room : Nat) → InnerReader
  | 0, _, opened, _ => .error ⟨s.category, some opened, .tooDeep s.maxDepth⟩
  | room + 1, .group, _, ts => expression s (innerAt room) ts
  | room + 1, .negated, _, ts => factor s (innerAt room) ts

/-! ## Entries -/

/-- A threshold rule is a comparison. -/
def threshold (ts : List Token) : Except SyntaxError (Parsed Rule) := do
  let (rule, rest) ← comparison s (innerAt s s.maxDepth) ts
  match rule, rest with
  | .comparison .., _ => return (rule, rest)
  | _, t :: _ => fail s (.found .comparator t) t.position
  | _, [] => fail s (.noComparison rule) (place s ts)

/-- A pattern rule is an aggregate compared with a literal. -/
def pattern (ts : List Token) : Except SyntaxError (Parsed Rule) := do
  let (left, rest) ← atom s (innerAt s s.maxDepth) ts
  match left with
  | .aggregate _ =>
    let (op, ts) ← comparator s .comparatorAfterAggregate rest
    let (right, rest) ← atom s (innerAt s s.maxDepth) ts
    match right with
    | .literal _ => return (.comparison op left right, rest)
    | _ => fail s (.noLiteral right) (place s ts)
  | _ => fail s (.noAggregate left) (place s ts)

/-- The production that the category selects. -/
def entry (ts : List Token) : Except SyntaxError (Parsed Rule) :=
  match s.category with
  | .threshold => threshold s ts
  | .pattern => pattern s ts
  | .composite => expression s (innerAt s s.maxDepth) ts

/-- The rule that the tokens stand for, all of them. -/
def read (ts : List Token) : Except SyntaxError Rule := do
  let (rule, rest) ← entry s ts
  match rest with
  | [] => return rule
  | t :: _ => fail s (.leftover t) t.position

end Screening.Grammar
