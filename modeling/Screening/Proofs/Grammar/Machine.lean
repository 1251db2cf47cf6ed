import Screening.Proofs.Grammar.Soundness

/-!
# The grammar on a cursor

The productions return the tokens that they leave. Here the same grammar is run by a machine that
leaves the tokens where they are: it moves a cursor over them, and it counts the groups and
negations that are open, up before and down after what stands inside.

A loop of the machine has no end of its own, and its routines come back to themselves. How many
rounds a loop may take, and how deep in one another the routines may be, is a number of steps; a
run that needs more has no result, and no more has one that makes a chain of fewer than two
operands. That from some number of steps on every run has a result is a theorem about the machine,
as is that it reads what the productions read.
-/

namespace Screening.Grammar

/-- What the machine reads, and what else it depends on. None of it changes in a run. -/
structure Input extends Setting where
  tokens : List Token

/-- What changes in a run. -/
structure Cursor where
  /-- The index of the next token. -/
  position : Nat
  /-- How many groups and negations are open. -/
  depth : Nat

/-- A routine ends with a result or an error, and either way with a cursor, or runs out of steps. -/
abbrev Machine (α : Type) := ExceptT SyntaxError (StateT Cursor Option) α

namespace Machine

/-- How the routine ends when started at the cursor, if the steps are enough. -/
def runFrom {α : Type} (m : Machine α) (c : Cursor) : Option (Except SyntaxError α × Cursor) :=
  m.run.run c

section Runs

variable {α β : Type} {m : Machine α} {f : α → Machine β} {c c' : Cursor}

theorem runFrom_bind_ok {a} (h : m.runFrom c = some (.ok a, c')) :
    (m >>= f).runFrom c = (f a).runFrom c' := by
  simp only [runFrom] at h ⊢
  rw [ExceptT.run_bind, StateT.run_bind, h]
  rfl

theorem runFrom_bind_error {e} (h : m.runFrom c = some (.error e, c')) :
    (m >>= f).runFrom c = some (.error e, c') := by
  simp only [runFrom] at h ⊢
  rw [ExceptT.run_bind, StateT.run_bind, h]
  rfl

end Runs

variable (input : Input)

/-! ## Single tokens -/

/-- Fails at a place. -/
def fail {α : Type} (fault : SyntaxFault) (position : Nat) : Machine α :=
  throw ⟨input.category, some position, fault⟩

/-- The next token, if there is one. -/
def peek : Machine (Option Token) := do
  return input.tokens[(← get).position]?

/-- Takes the next token. -/
def advance : Machine Unit :=
  modify fun c => { c with position := c.position + 1 }

/-- The place of the next token. -/
def place : Machine Nat := do
  return (← peek input).elim input.finish Token.position

/-- Whether the next token is this logical operator. -/
def atLogic (op : LogicOp) : Machine Bool := do
  return (← peek input).any (isLogic op)

/-- Takes a token of the given kind. -/
def expect (kind : TokenKind) (wanted : Wanted) : Machine Token := do
  match ← peek input with
  | none => fail input (.unexpectedEnd wanted) input.finish
  | some t =>
    if t.kind = kind then
      advance
      return t
    else fail input (.found wanted t) t.position

/-- Takes a comparator. -/
def comparator (wanted : Wanted) : Machine Comparator := do
  let t ← expect input .comparisonOp wanted
  match Comparator.ofSymbol? t.text with
  | some op => return op
  | none => fail input (.unknownComparator t.text) t.position

/-- Lets a condition pass as an operand of `op`. -/
def condition (op : LogicOp) (rule : Rule) (start : Nat) : Machine Rule :=
  if rule.isCondition then return rule
  else fail input (.noCondition op rule) start

/-! ## Aggregates -/

/-- The argument of an aggregate function. -/
def argument (function : AggregateFunction) : Machine AggregateOperand := do
  match ← peek input with
  | none => fail input (.unexpectedEnd .argument) input.finish
  | some t =>
    match t.kind with
    | .field => do
      let name ← MonadExcept.ofExcept (fieldOf input.toSetting t)
      advance
      return .field name
    | .wildcard => do
      advance
      return .wildcard
    | _ => fail input (.badArgument function t) t.position

/-- An aggregate function with its argument. -/
def aggregate : Machine Rule := do
  let t ← expect input .aggregateFunction .aggregateFunction
  match Named.find? t.text with
  | none => fail input (.unknownFunction t.text) t.position
  | some function => do
    let _ ← expect input .lparen .openAfterFunction
    let operand ← argument input function
    let _ ← expect input .rparen .closeArgument
    return .aggregate ⟨function, operand⟩

/-! ## Nesting -/

/-- What stands inside, one level deeper. The count goes down again after an error too, so the
result is passed on as it comes and an error is not raised before that. -/
def nested (opened : Nat) (inside : Machine Rule) : Machine Rule :=
  (do
    if input.maxDepth ≤ (← get).depth then
      return .error ⟨input.category, some opened, .tooDeep input.maxDepth⟩
    else
      modify fun c => { c with depth := c.depth + 1 }
      let result ← inside.run
      modify fun c => { c with depth := c.depth - 1 }
      return result : StateT Cursor Option (Except SyntaxError Rule))

section Nested

variable {input} {opened : Nat} {inside : Machine Rule} {c : Cursor}

theorem runFrom_nested_of_le (h : input.maxDepth ≤ c.depth) :
    (nested input opened inside).runFrom c =
      some (.error ⟨input.category, some opened, .tooDeep input.maxDepth⟩, c) := by
  rw [nested, runFrom, ExceptT.run]
  simp only [StateT.run_bind, StateT.run_get, pure_bind, h, ↓reduceIte]
  rfl

/-- If what stands inside leaves the count as it is there, the count is restored, with a result as
with an error. -/
theorem runFrom_nested {result n} (h : c.depth < input.maxDepth)
    (hrun : inside.runFrom ⟨c.position, c.depth + 1⟩ = some (result, ⟨n, c.depth + 1⟩)) :
    (nested input opened inside).runFrom c = some (result, ⟨n, c.depth⟩) := by
  rw [runFrom] at hrun
  rw [nested, runFrom, ExceptT.run]
  simp only [StateT.run_bind, StateT.run_get, StateT.run_modify, pure_bind, Nat.not_le.2 h,
    ↓reduceIte, hrun]
  rfl

end Nested

/-! ## Operands and comparisons -/

/-- An operand of a comparison: a literal, a field, an aggregate, or a group. -/
def atom (inside : Inner → Machine Rule) : Machine Rule := do
  match ← peek input with
  | none => fail input (.unexpectedEnd .operand) input.finish
  | some t =>
    match t.kind with
    | .number => do
      let value ← MonadExcept.ofExcept (numberOf input.toSetting t)
      advance
      return .literal value
    | .string =>
      match unquote? t.text with
      | some body => do
        advance
        return .literal (.string body)
      | none => fail input (.malformedString t.text) t.position
    | .bool => do
      advance
      return .literal (.bool (t.text == "TRUE"))
    | .field => do
      let name ← MonadExcept.ofExcept (fieldOf input.toSetting t)
      advance
      return .field name
    | .identifier => do
      advance
      return .literal (.string (Text.lower t.text))
    | .aggregateFunction => aggregate input
    | .lparen => do
      advance
      let rule ← nested input t.position (inside .group)
      let _ ← expect input .rparen .closeGroup
      return rule
    | .wildcard => fail input .strayWildcard t.position
    | .rparen | .comparisonOp | .logicOp => fail input (.noOperand t) t.position

/-- One operand, or two with a comparator between them. -/
def comparison (inside : Inner → Machine Rule) : Machine Rule := do
  let left ← atom input inside
  if (← peek input).map Token.kind = some .comparisonOp then
    let op ← comparator input .comparator
    let right ← atom input inside
    return .comparison op left right
  else return left

/-! ## Logical operators -/

/-- A negation, or what binds tighter. -/
def factor (inside : Inner → Machine Rule) : Machine Rule := do
  if ← atLogic input .not then
    let opened ← place input
    advance
    let start ← place input
    let rule ← nested input opened (inside .negated)
    let rule ← condition input .not rule start
    return .negation rule
  else comparison input inside

/-- The operator at the cursor and the operand behind it. -/
def link (op : Junction) (operand : Machine Rule) : Machine Rule := do
  advance
  let start ← place input
  let rule ← operand
  condition input op.op rule start

/-- Links for as long as the operator is at the cursor. -/
def links (op : Junction) (operand : Machine Rule) : (steps : Nat) → Machine (List Rule)
  | 0 => liftM (none : Option (List Rule))
  | steps + 1 => do
    if ← atLogic input op.op then
      let rule ← link input op operand
      let rules ← links op operand steps
      return rule :: rules
    else return []

theorem links_of_pos {op : Junction} {operand : Machine Rule} {steps : Nat} (h : 0 < steps) :
    links input op operand steps = do
      if ← atLogic input op.op then
        let rule ← link input op operand
        let rules ← links input op operand (steps - 1)
        return rule :: rules
      else return [] := by
  obtain ⟨steps, rfl⟩ := Nat.exists_eq_succ_of_ne_zero (Nat.ne_of_gt h)
  rw [links, Nat.succ_sub_one]

/-- What is done with the links goes on behind the first of them, if there is one. -/
theorem links_bind_of_pos {α : Type} {op : Junction} {operand : Machine Rule} {steps : Nat}
    (f : List Rule → Machine α) (h : 0 < steps) :
    links input op operand steps >>= f = (do
      if ← atLogic input op.op then
        let rule ← link input op operand
        let rules ← links input op operand (steps - 1)
        f (rule :: rules)
      else f []) := by
  rw [links_of_pos input h, bind_assoc]
  congr 1
  funext more
  cases more with
  | false => exact pure_bind ..
  | true => simp only [↓reduceIte, bind_assoc, pure_bind]

/-- The node of a chain of operands. With fewer than two the run has no result. -/
def ofChain (op : Junction) (operands : List Rule) : Machine Rule :=
  liftM (if h : 2 ≤ operands.length then some (Rule.ofChain op operands h) else none)

theorem ofChain_cons (op : Junction) (first second : Rule) (more : List Rule) :
    ofChain op (first :: second :: more) = pure (.junction op first second more) := by
  rw [ofChain, dif_pos (by simp)]
  rfl

/-- One operand, or two and more with `op` between them as one flat node. -/
def chain (op : Junction) (operand : Machine Rule) (steps : Nat) : Machine Rule := do
  let start ← place input
  let first ← operand
  if ← atLogic input op.op then
    let first ← condition input op.op first start
    let more ← links input op operand steps
    ofChain op (first :: more)
  else return first

/-! ## Symbols -/

/-- The routine that reads a symbol, given those for what stands inside groups and negations. -/
def routine (steps : Nat) (inside : Inner → Machine Rule) : Symbol → Machine Rule
  | .chain .or => chain input .or (chain input .and (factor input inside) steps) steps
  | .chain .and => chain input .and (factor input inside) steps
  | .factor => factor input inside
  | .comparison => comparison input inside
  | .atom => atom input inside

/-- The routine that reads a symbol. Inside of it there is a step less. -/
def parse : (steps : Nat) → Symbol → Machine Rule
  | 0, _ => liftM (none : Option Rule)
  | steps + 1, symbol => routine input (steps + 1) (fun kind => parse steps kind.symbol) symbol

theorem parse_of_pos {steps : Nat} (h : 0 < steps) (symbol : Symbol) :
    parse input steps symbol =
      routine input steps (fun kind => parse input (steps - 1) kind.symbol) symbol := by
  obtain ⟨steps, rfl⟩ := Nat.exists_eq_succ_of_ne_zero (Nat.ne_of_gt h)
  rw [parse, Nat.succ_sub_one]

end Machine

end Screening.Grammar
