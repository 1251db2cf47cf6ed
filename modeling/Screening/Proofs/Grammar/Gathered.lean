import Screening.Proofs.Grammar.Admitted
import Screening.Proofs.Grammar.Soundness
import Screening.Proofs.Rule.Nodes

/-!
# Gathering from operands

The operands of an expression are the leaves of its tree, and what joins them makes the inner nodes. So
what is gathered from the operands among the tokens, from left to right, is what is gathered from the
leaves of the tree in pre-order.
-/

namespace Screening

/-- The kinds of tokens that join operands or group them. -/
def TokenKind.joins : TokenKind → Bool
  | comparisonOp | logicOp | lparen | rparen => true
  | _ => false

namespace Grammar

/-- `gather` takes from the tokens of an operand what `pick` takes from its leaf. From what joins
operands, and from inner nodes, nothing is taken. -/
structure Gathers {β : Type} (pick : Rule → Option β) (gather : List Token → List β) : Prop where
  nil : gather [] = []
  literal : ∀ {t v}, Denotes t v → ∀ us,
    gather (t :: us) = (pick (.literal v)).toList ++ gather us
  field : ∀ {t name}, t.kind = .field → t.text = Field.name name → ∀ us,
    gather (t :: us) = (pick (.field name)).toList ++ gather us
  aggregate : ∀ {t opening arg closing function operand}, t.kind = .aggregateFunction →
    t.text = AggregateFunction.name function → opening.kind = .lparen → Argues arg operand →
    closing.kind = .rparen → ∀ us, gather (t :: opening :: arg :: closing :: us) =
      (pick (.aggregate ⟨function, operand⟩)).toList ++ gather us
  joint : ∀ {t : Token}, t.kind.joins = true → ∀ us, gather (t :: us) = gather us
  inner : ∀ {rule : Rule}, rule.isCondition = true → pick rule = none

namespace Gathers

variable {β : Type} {pick : Rule → Option β} {gather : List Token → List β}
  (hc : Gathers pick gather)

include hc

theorem logic {op : LogicOp} {t : Token} (h : isLogic op t = true) (us : List Token) :
    gather (t :: us) = gather us :=
  hc.joint (by rw [(isLogic_iff.1 h).1]; rfl) us

/-- The links of a run, given what is gathered from the operand of each. -/
theorem links {op : LogicOp} {links : List Link} (hj : ∀ link ∈ links, isLogic op link.joint = true)
    (h : ∀ link ∈ links, ∀ us,
      gather (link.tokens ++ us) = link.rule.nodes.filterMap pick ++ gather us) (us : List Token) :
    gather (links.flatMap Link.span ++ us) =
      ((links.map Link.rule).flatMap Rule.nodes).filterMap pick ++ gather us := by
  induction links with
  | nil => rfl
  | cons link links ih =>
    obtain ⟨hjoint, hjoints⟩ := List.forall_mem_cons.1 hj
    obtain ⟨hlink, hlinks⟩ := List.forall_mem_cons.1 h
    rw [List.flatMap_cons, Link.span, List.append_assoc, List.cons_append, hc.logic hjoint, hlink,
      ih hjoints hlinks, List.map_cons, List.flatMap_cons, List.filterMap_append, List.append_assoc]

end Gathers

/-- What is gathered from derived tokens is what is picked from the nodes of their tree, whatever
follows them. -/
theorem Derives.gather {β : Type} {pick : Rule → Option β} {gather : List Token → List β}
    (hc : Gathers pick gather) {symbol d ts rule} (h : Derives symbol d ts rule) (us : List Token) :
    gather (ts ++ us) = rule.nodes.filterMap pick ++ gather us := by
  have hleaf : ∀ leaf : Rule, leaf.nodes = [leaf] →
      leaf.nodes.filterMap pick = (pick leaf).toList := by
    intro leaf hnodes
    cases hp : pick leaf <;> simp [hnodes, hp]
  induction h generalizing us with
  | literal h =>
    rw [hleaf _ rfl]
    exact hc.literal h us
  | field hk ht =>
    rw [hleaf _ rfl]
    exact hc.field hk ht us
  | aggregate hk ht ho ha hclose =>
    rw [hleaf _ rfl]
    exact hc.aggregate hk ht ho ha hclose us
  | @group _ opening _ closing _ ho _ hclose ih =>
    have hopening : opening.kind.joins = true := by rw [ho]; rfl
    have hclosing : closing.kind.joins = true := by rw [hclose]; rfl
    rw [List.cons_append, hc.joint hopening, List.append_assoc, ih, List.singleton_append,
      hc.joint hclosing]
  | operand _ ih => exact ih us
  | @compare _ _ t _ _ _ _ _ ht _ ihl ihr =>
    have hjoint : t.kind.joins = true := by rw [ht.kind]; rfl
    rw [List.append_assoc, ihl, List.cons_append, hc.joint hjoint, ihr, Rule.nodes,
      List.filterMap_cons_none (hc.inner rfl), List.filterMap_append, List.append_assoc]
  | plain _ ih => exact ih us
  | negation ht _ _ ih =>
    rw [List.cons_append, hc.logic ht, ih, Rule.nodes, List.filterMap_cons_none (hc.inner rfl)]
  | single _ ih => exact ih us
  | run _ _ hj _ _ ih ihs =>
    rw [List.append_assoc, ih, hc.links hj ihs us, ← Rule.nodesAll_eq, List.map_cons,
      Rule.nodesAll, Rule.nodes, List.filterMap_cons_none (hc.inner rfl)]
    simp only [List.filterMap_append, List.append_assoc]

/-- What is gathered from all tokens is what is picked from the nodes of the rule read off them. -/
theorem Gathers.of_read {β : Type} {pick : Rule → Option β} {gather : List Token → List β}
    (hc : Gathers pick gather) {s : Setting} {ts : List Token} {rule : Rule}
    (h : read s ts = .ok rule) : gather ts = rule.nodes.filterMap pick := by
  obtain ⟨symbol, hderives⟩ := (generates_of_read h).derives
  have hgather := hderives.gather hc []
  rwa [List.append_nil, hc.nil, List.append_nil] at hgather

end Grammar

end Screening
