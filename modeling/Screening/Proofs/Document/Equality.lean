import Screening.Proofs.Document.Sorted

/-!
# Equality of documents

The documents of two rules are equal exactly if the rules are. Both equalities take the two zeros of
binary64 for one value, and tell a whole number from a binary64 number of the same value.
-/

namespace Screening

/-! ## Values -/

namespace Json

mutual

/-- Whether two values are equal, where the two zeros of binary64 are one value. Members are compared
in the order they stand in. -/
def same : Json → Json → Bool
  | .null, .null => true
  | .bool a, .bool b => a == b
  | .integer v, .integer w => v == w
  | .float x, .float y => x.same y
  | .string s, .string t => s == t
  | .array items, .array items' => sameItems items items'
  | .object members, .object members' => sameMembers members members'
  | _, _ => false

/-- Whether two lists hold equal values at equal places. -/
def sameItems : List Json → List Json → Bool
  | [], [] => true
  | item :: rest, item' :: rest' => item.same item' && sameItems rest rest'
  | _, _ => false

/-- Whether two lists hold equal members at equal places. -/
def sameMembers : List (String × Json) → List (String × Json) → Bool
  | [], [] => true
  | (key, value) :: rest, (key', value') :: rest' =>
    key == key' && value.same value' && sameMembers rest rest'
  | _, _ => false

end

end Json

/-! ## Parts -/

section

variable {α : Type} [Named α]

@[simp] theorem name_inj (a b : α) : Named.name a = Named.name b ↔ a = b :=
  ⟨Named.name_injective a b, congrArg Named.name⟩

@[simp] theorem same_encodeName (a b : α) : (encodeName a).same (encodeName b) = true ↔ a = b := by
  simp [encodeName, Json.same, name_inj]

@[simp] theorem same_tagged (a b : α) (x y : Json) :
    (tagged a x).same (tagged b y) = true ↔ a = b ∧ x.same y = true := by
  simp [tagged, Json.same, Json.sameMembers, name_inj]

end

@[simp] theorem same_object_nil : (Json.object []).same (.object []) = true := rfl

@[simp] theorem same_encode_literal (a b : Literal) :
    a.encode.same b.encode = true ↔ a.same b = true := by
  cases a <;> cases b <;>
    simp [Literal.encode, Json.same, Literal.same, Int32.toInt_inj, Int64.toInt_inj]

@[simp] theorem same_encodeRef (a b : Field) : a.encodeRef.same b.encodeRef = true ↔ a = b := by
  simp [Field.encodeRef, part, Json.same, Json.sameMembers]

@[simp] theorem same_encode_operand (a b : AggregateOperand) :
    a.encode.same b.encode = true ↔ a = b := by
  cases a <;> cases b <;> simp [AggregateOperand.encode]

@[simp] theorem same_encode_aggregate (a b : Aggregate) : a.encode.same b.encode = true ↔ a = b := by
  obtain ⟨f, x⟩ := a
  obtain ⟨g, y⟩ := b
  simp [Aggregate.encode, part, Json.same, Json.sameMembers]

namespace Rule

@[simp] theorem same_sortedComparisonBody (op op' : Comparator) (l r l' r' : Json) :
    (sortedComparisonBody op l r).same (sortedComparisonBody op' l' r') = true ↔
      l.same l' = true ∧ op = op' ∧ r.same r' = true := by
  simp [sortedComparisonBody, part, Json.same, Json.sameMembers]

@[simp] theorem same_sortedLogicalBody (op op' : LogicOp) (items items' : List Json) :
    (sortedLogicalBody op items).same (sortedLogicalBody op' items') = true ↔
      Json.sameItems items items' = true ∧ op = op' := by
  simp [sortedLogicalBody, part, Json.same, Json.sameMembers]

/-! ## Rules -/

theorem sameItems_documents {as : List Rule}
    (h : ∀ a ∈ as, ∀ b : Rule, a.document.same b.document = true ↔ a.same b = true)
    (bs : List Rule) :
    Json.sameItems (as.map document) (bs.map document) = true ↔ sameAll as bs = true := by
  induction as generalizing bs with
  | nil => cases bs <;> simp [Json.sameItems, sameAll]
  | cons a as ih =>
    obtain ⟨ha, has⟩ := List.forall_mem_cons.1 h
    cases bs with
    | nil => simp [Json.sameItems, sameAll]
    | cons b bs => simp only [List.map_cons, Json.sameItems, sameAll, Bool.and_eq_true, ha, ih has]

/-- Two rules have the same document exactly if they are the same. -/
theorem same_document (a b : Rule) :
    a.document.same b.document = true ↔ a.same b = true := by
  induction a generalizing b with
  | literal value => cases b <;> simp [same]
  | field name => cases b <;> simp [same]
  | wildcard => cases b <;> simp [same]
  | aggregate call => cases b <;> simp [same]
  | comparison op left right ihl ihr =>
    cases b <;> simp [same, ihl, ihr, and_assoc, and_left_comm]
  | negation operand ih => cases b <;> simp [same, ih, Json.sameItems, (op_ne_not _).symm]
  | junction op first second more ihf ihs ihm =>
    cases b <;>
      simp [same, ihf, ihs, sameItems_documents ihm, Json.sameItems, op_ne_not, and_assoc,
        and_comm]

end Rule

end Screening
