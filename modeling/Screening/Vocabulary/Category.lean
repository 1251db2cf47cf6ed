import Screening.Vocabulary.Named

/-!
# Rule categories

The declared kind of a rule. It selects what an expression may contain and how it is read.
-/

namespace Screening

/-- The declared kind of a rule. -/
inductive Category
  /-- A single comparison. -/
  | threshold
  /-- An aggregate compared with a literal. -/
  | pattern
  /-- Comparisons combined by logical operators. -/
  | composite
  deriving DecidableEq, Repr

namespace Category

/-- The name of a category. -/
def name : Category → String
  | threshold => "THRESHOLD"
  | pattern => "PATTERN"
  | composite => "COMPOSITE"

/-- An expression that the category accepts, shown to whoever wrote one that it does not. -/
def sample : Category → String
  | threshold => "AMOUNT > 1000"
  | pattern => "COUNT(AMOUNT) > 5"
  | composite => "AMOUNT > 100 AND TIME = 'night'"

instance : Named Category where
  all := [.threshold, .pattern, .composite]
  name := name
  mem_all := by intro a; cases a <;> decide
  name_injective := by intro a b; cases a <;> cases b <;> decide

end Category

end Screening
