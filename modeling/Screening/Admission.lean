import Screening.Token.Basic
import Screening.Vocabulary.Category
import Screening.Vocabulary.Field

/-!
# Admission

What is checked on tokens before they are read as a rule: that words in the place of a field
are fields, and then that the category allows the kinds of token that occur.
-/

namespace Screening

/-! ## Refusals -/

/-- What a category misses or forbids. -/
inductive Breach
  | logicalOperatorsForbidden
  | aggregatesForbidden
  | comparisonRequired
  | aggregateRequired
  | logicalOperatorRequired
  deriving DecidableEq, Repr

/-- A breach in words. -/
def Breach.reason : Breach → String
  | logicalOperatorsForbidden => "logical operators (AND, OR, NOT) are not allowed"
  | aggregatesForbidden =>
    "aggregate functions (COUNT, SUM, AVG, MIN, MAX, COUNT_DISTINCT) are not allowed"
  | comparisonRequired => "a comparison operator (=, ==, !=, >, >=, <, <=) is required"
  | aggregateRequired =>
    "an aggregate function (COUNT, SUM, AVG, MIN, MAX, COUNT_DISTINCT) is required"
  | logicalOperatorRequired => "at least one logical operator (AND, OR, NOT) is required"

/-- Why tokens are not admitted. -/
inductive Refusal
  /-- Words that stand for fields but are none, each once, in order of first appearance. -/
  | unknownFields (names : List String)
  | breach (category : Category) (breach : Breach)
  deriving DecidableEq, Repr

/-- What is said about a refusal. -/
def Refusal.message : Refusal → String
  | unknownFields names =>
    "unknown field(s): " ++ ", ".intercalate names ++ ". Valid fields: " ++
      ", ".intercalate (Named.names Field)
  | breach category b => s!"{b.reason} in {category.name} rules, e.g. {category.sample}"

namespace Admission

/-! ## Fields -/

/-- Whether `t` stands for a field without being one, where `before` are the kinds of the two
tokens in front of it, the nearer one last, and `rest` follows. A field token does if its text
is no field's name; a bare word does in front of a comparator and as the argument of an
aggregate function. -/
def misnamed (before : Option TokenKind × Option TokenKind) (t : Token) (rest : List Token) :
    Bool :=
  match t.kind with
  | .field => !Named.isName Field t.text
  | .identifier =>
    rest.head?.map Token.kind == some .comparisonOp ||
      before == (some .aggregateFunction, some .lparen)
  | _ => false

/-- The texts of the misnamed tokens, in order. -/
def misnamedTexts (before : Option TokenKind × Option TokenKind) : List Token → List String
  | [] => []
  | t :: rest =>
    let later := misnamedTexts (before.2, some t.kind) rest
    if misnamed before t rest then t.text :: later else later

/-- The names that stand for fields but are none, each once, in order of first appearance. -/
def unknownFields (tokens : List Token) : List String :=
  (misnamedTexts (none, none) tokens).eraseDups

/-! ## Categories -/

/-- Whether a token of this kind occurs. -/
def has (kind : TokenKind) (tokens : List Token) : Bool := tokens.any (·.kind == kind)

/-- The first breach of what `category` asks of tokens. -/
def breach? (category : Category) (tokens : List Token) : Option Breach :=
  match category with
  | .threshold =>
    if has .logicOp tokens then some .logicalOperatorsForbidden
    else if has .aggregateFunction tokens then some .aggregatesForbidden
    else if !has .comparisonOp tokens then some .comparisonRequired
    else none
  | .pattern =>
    if has .logicOp tokens then some .logicalOperatorsForbidden
    else if !has .aggregateFunction tokens then some .aggregateRequired
    else if !has .comparisonOp tokens then some .comparisonRequired
    else none
  | .composite =>
    if !has .logicOp tokens then some .logicalOperatorRequired
    else if has .aggregateFunction tokens then some .aggregatesForbidden
    else none

/-! ## Both -/

/-- Lets tokens pass for a category. Unknown fields are reported before anything else. -/
def check (tokens : List Token) (category : Category) : Except Refusal Unit :=
  match unknownFields tokens with
  | [] =>
    match breach? category tokens with
    | none => .ok ()
    | some b => .error (.breach category b)
  | names => .error (.unknownFields names)

end Admission

end Screening
