import Screening.Proofs.Rule.Nodes

/-!
# Rules that differ in their strings

Two trees are alike if they are equal but for their strings, and these are related one by one. With
equality as the relation that is equality of rules.
-/

namespace Screening

/-- Two literals are equal, or strings that `S` relates. -/
def Literal.Alike (S : String → String → Prop) : Literal → Literal → Prop
  | .string a, .string b => S a b
  | a, b => a = b

theorem Literal.alike_eq_iff {a b : Literal} : a.Alike (· = ·) b ↔ a = b := by
  cases a <;> cases b <;> simp [Alike]

namespace Rule

variable {S : String → String → Prop}

mutual

/-- Two trees are of one shape, with equal operators, fields, numbers and truth values, and `S`
relates their strings. -/
def Alike (S : String → String → Prop) : Rule → Rule → Prop
  | .literal a, .literal b => a.Alike S b
  | .field a, .field b => a = b
  | .wildcard, .wildcard => True
  | .aggregate a, .aggregate b => a = b
  | .comparison op left right, .comparison op' left' right' =>
    op = op' ∧ left.Alike S left' ∧ right.Alike S right'
  | .negation a, .negation b => a.Alike S b
  | .junction op first second more, .junction op' first' second' more' =>
    op = op' ∧ first.Alike S first' ∧ second.Alike S second' ∧ AlikeAll S more more'
  | _, _ => False

/-- Two lists hold such trees at equal places. -/
def AlikeAll (S : String → String → Prop) : List Rule → List Rule → Prop
  | [], [] => True
  | a :: as, b :: bs => a.Alike S b ∧ AlikeAll S as bs
  | _, _ => False

end

/-- Trees that are alike are conditions both or neither. -/
theorem Alike.isCondition_eq {a b : Rule} (h : a.Alike S b) : a.isCondition = b.isCondition := by
  cases a <;> cases b <;> simp_all [Alike, isCondition]

/-! ## Equality -/

theorem alikeAll_eq_iff {as : List Rule} (h : ∀ a ∈ as, ∀ b, a.Alike (· = ·) b ↔ a = b)
    (bs : List Rule) : AlikeAll (· = ·) as bs ↔ as = bs := by
  induction as generalizing bs with
  | nil => cases bs <;> simp [AlikeAll]
  | cons a as ih =>
    obtain ⟨ha, has⟩ := List.forall_mem_cons.1 h
    cases bs with
    | nil => simp [AlikeAll]
    | cons b bs => simp [AlikeAll, ha, ih has]

theorem alike_eq_iff {a b : Rule} : a.Alike (· = ·) b ↔ a = b := by
  induction a generalizing b with
  | literal value => cases b <;> simp [Alike, Literal.alike_eq_iff]
  | comparison op left right ihl ihr => cases b <;> simp [Alike, ihl, ihr]
  | negation operand ih => cases b <;> simp [Alike, ih]
  | junction op first second more ihf ihs ihm =>
    cases b <;> simp [Alike, ihf, ihs, alikeAll_eq_iff fun a ha b => ihm a ha]
  | _ => cases b <;> simp [Alike]

end Rule

end Screening
