import Screening.Proofs.Rule.Nodes

/-!
# Equality of rules

Whether two rules are equal can be computed, and so can whether an outcome is a given rule.
-/

namespace Screening

namespace Rule

mutual

/-- Whether two trees are equal, the two zeros of binary64 being different. -/
def equal : Rule → Rule → Bool
  | .literal a, .literal b => a == b
  | .field a, .field b => a == b
  | .wildcard, .wildcard => true
  | .aggregate a, .aggregate b => a == b
  | .comparison op left right, .comparison op' left' right' =>
    op == op' && left.equal left' && right.equal right'
  | .negation a, .negation b => a.equal b
  | .junction op first second more, .junction op' first' second' more' =>
    op == op' && first.equal first' && second.equal second' && equalAll more more'
  | _, _ => false

/-- Whether two lists hold equal trees at equal places. -/
def equalAll : List Rule → List Rule → Bool
  | [], [] => true
  | a :: as, b :: bs => a.equal b && equalAll as bs
  | _, _ => false

end

theorem equalAll_iff {as : List Rule} (h : ∀ a ∈ as, ∀ b, a.equal b = true ↔ a = b)
    (bs : List Rule) : equalAll as bs = true ↔ as = bs := by
  induction as generalizing bs with
  | nil => cases bs <;> simp [equalAll]
  | cons a as ih =>
    obtain ⟨ha, has⟩ := List.forall_mem_cons.1 h
    cases bs with
    | nil => simp [equalAll]
    | cons b bs => simp [equalAll, ha, ih has]

theorem equal_iff (a b : Rule) : a.equal b = true ↔ a = b := by
  induction a generalizing b with
  | comparison op left right ihl ihr => cases b <;> simp [equal, ihl, ihr, and_assoc]
  | negation operand ih => cases b <;> simp [equal, ih]
  | junction op first second more ihf ihs ihm =>
    cases b <;> simp [equal, ihf, ihs, equalAll_iff ihm, and_assoc]
  | _ => cases b <;> simp [equal]

instance : DecidableEq Rule := fun a b => decidable_of_iff _ (equal_iff a b)

end Rule

/-- Whether an outcome is a given value can be computed whatever the errors are. -/
instance decidableEqOk {ε α : Type} [DecidableEq α] (outcome : Except ε α) (a : α) :
    Decidable (outcome = .ok a) :=
  match outcome with
  | .ok b => decidable_of_iff (b = a) ⟨congrArg Except.ok, Except.ok.inj⟩
  | .error _ => isFalse fun h => nomatch h

end Screening
