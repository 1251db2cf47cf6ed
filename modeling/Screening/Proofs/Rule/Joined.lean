import Screening.Proofs.Rule.Fields
import Screening.Rule.Builder

/-!
# Joined rules

What joining two rules does to their operands, and to all that is measured on a rule. Joining lengthens
a chain on its left and leaves one on its right as it is, so it is not associative. But nothing is lost,
and rules that are joined one after the other make one flat node.
-/

namespace Screening.Rule

/-! ## What joining does -/

/-- The rule is no chain of `op`. -/
def NoChain (op : Junction) (rule : Rule) : Prop :=
  ∀ operands, rule.logical? ≠ some (op.op, operands)

theorem join_junction (op : Junction) (first second right : Rule) (more : List Rule) :
    join op (.junction op first second more) right = .junction op first second (more ++ [right]) :=
  join_eq (by simp [chained, logical?])

/-- Joining lengthens a chain of the same operator, or makes a new one of two operands. -/
theorem join_cases (op : Junction) (left right : Rule) :
    (∃ first second more, left = .junction op first second more ∧
      join op left right = .junction op first second (more ++ [right])) ∨
    (NoChain op left ∧ join op left right = .junction op left right []) := by
  cases left with
  | junction op' first second more =>
    by_cases h : op' = op
    · subst h
      exact .inl ⟨first, second, more, rfl, join_junction ..⟩
    · have hop : op'.op ≠ op.op := fun heq => h ((op_inj op' op).1 heq)
      exact .inr ⟨fun operands hl => hop (congrArg Prod.fst (Option.some.inj hl)),
        join_eq (by simp [chained, logical?, hop])⟩
  | negation operand =>
    have hop : LogicOp.not ≠ op.op := (op_ne_not op).symm
    exact .inr ⟨fun operands hl => hop (congrArg Prod.fst (Option.some.inj hl)),
      join_eq (by simp [chained, logical?, hop])⟩
  | _ =>
    refine .inr ⟨fun operands hl => ?_, rfl⟩
    cases hl

theorem sizeAll_concat (rules : List Rule) (rule : Rule) :
    sizeAll (rules ++ [rule]) = sizeAll rules + rule.size := by
  induction rules with
  | nil => simp [sizeAll]
  | cons r rules ih => simp [sizeAll, ih, Nat.add_assoc]

theorem depthAll_concat (rules : List Rule) (rule : Rule) :
    depthAll (rules ++ [rule]) = max (depthAll rules) rule.depth := by
  induction rules with
  | nil => simp [depthAll]
  | cons r rules ih => simp [depthAll, ih, Nat.max_assoc]

/-- A joined rule has the nodes of its sides, but for those that join. -/
theorem filterMap_nodes_join (op : Junction) (left right : Rule) :
    (join op left right).nodes.filterMap field? =
      left.nodes.filterMap field? ++ right.nodes.filterMap field? := by
  have hinner : ∀ first second more, (junction op first second more).field? = none :=
    fun _ _ _ => rfl
  rcases join_cases op left right with ⟨first, second, more, rfl, hjoin⟩ | ⟨-, hjoin⟩
  · simp [hjoin, nodes, nodesAll_eq, hinner]
  · simp [hjoin, nodes, nodesAll, hinner]

theorem fields_join (op : Junction) (left right : Rule) :
    (join op left right).fields = left.fields ++ right.fields.filter (· ∉ left.fields) := by
  rw [fields, filterMap_nodes_join, foldl_addNew_append]
  rfl

/-- Joining to a chain one rule after the other puts them at its end. -/
theorem foldl_join (op : Junction) (first second : Rule) (rules more : List Rule) :
    rules.foldl (join op) (.junction op first second more) =
      .junction op first second (more ++ rules) := by
  induction rules generalizing more with
  | nil => simp
  | cons rule rules ih =>
    rw [List.foldl_cons, join_junction, ih, List.append_assoc, List.singleton_append]

/-! ## Measures -/

/-- `rule` puts `right` behind `left` under `op` without loss. -/
structure Joins (op : Junction) (left right rule : Rule) : Prop where
  /-- A chain of the operator takes one operand more. -/
  chained : ∀ operands, left.logical? = some (op.op, operands) →
    rule.logical? = some (op.op, operands ++ [right]) ∧
      rule.size = left.size + right.size ∧ rule.depth = max left.depth (1 + right.depth)
  /-- Anything else is one of two operands. -/
  paired : NoChain op left →
    rule.logical? = some (op.op, [left, right]) ∧
      rule.size = left.size + right.size + 1 ∧ rule.depth = 1 + max left.depth right.depth
  fields : rule.fields = left.fields ++ right.fields.filter (· ∉ left.fields)

theorem joins_join (op : Junction) (left right : Rule) :
    Joins op left right (join op left right) := by
  refine ⟨fun operands hl => ?_, fun hl => ?_, fields_join op left right⟩
  · rcases join_cases op left right with ⟨first, second, more, rfl, hjoin⟩ | ⟨hno, -⟩
    · obtain rfl : first :: second :: more = operands := congrArg Prod.snd (Option.some.inj hl)
      refine ⟨by simp [hjoin, logical?], ?_, ?_⟩
      · simp only [hjoin, size, sizeAll_concat]
        omega
      · simp only [hjoin, depth, depthAll_concat]
        omega
    · exact absurd hl (hno operands)
  · rcases join_cases op left right with ⟨first, second, more, rfl, -⟩ | ⟨-, hjoin⟩
    · exact absurd rfl (hl _)
    · refine ⟨by simp [hjoin, logical?], ?_, ?_⟩
      · simp only [hjoin, size, sizeAll]
        omega
      · simp only [hjoin, depth, depthAll]
        omega

/-- Rules are joined without loss, whatever they are. Joining rules one after the other to one that is no
chain gives one flat node with all of them in order. The fields of a rule are those that are mentioned in
it, each once. -/
theorem joined :
    (∀ op left right, Joins op left right (join op left right)) ∧
    (∀ op first second more, NoChain op first →
      ((second :: more).foldl (join op) first).logical? =
        some (op.op, first :: second :: more)) ∧
    ∀ rule : Rule, rule.fields.Nodup ∧ ∀ name, name ∈ rule.fields ↔ Mentions name rule := by
  refine ⟨joins_join, fun op first second more hno => ?_,
    fun rule => ⟨nodup_fields rule, fun name => mem_fields_iff⟩⟩
  rcases join_cases op first second with ⟨_, _, _, rfl, -⟩ | ⟨-, hjoin⟩
  · exact absurd rfl (hno _)
  · rw [List.foldl_cons, hjoin, foldl_join]
    rfl

/-- A chain is joined with itself: it is lengthened on the left and an operand on the right. -/
theorem joined_twice :
    let amount := Term.compare (.field .amount) .greaterThan (.int32 1)
    let count := Term.compare (.aggregate ⟨.count, .field .time⟩) .lessThan (.int32 9)
    let chain := join .and amount count
    NoChain .and amount ∧ chain.logical? = some (.and, [amount, count]) ∧
      (join .and chain chain).logical? = some (.and, [amount, count, chain]) ∧
      (join .and chain chain).size = 16 ∧ (join .and chain chain).depth = 5 ∧
      (join .and chain chain).fields = [.amount, .time] ∧
      ([count, chain].foldl (join .and) amount).logical? = some (.and, [amount, count, chain]) := by
  intro amount count chain
  have hno : NoChain .and amount := nofun
  have hchain : chain.logical? = some (.and, [amount, count]) := rfl
  obtain ⟨hjoin, hfold, -⟩ := joined
  obtain ⟨hoperands, hsize, hdepth⟩ := (hjoin .and chain chain).chained _ hchain
  refine ⟨hno, hchain, hoperands, hsize.trans (by decide), hdepth.trans (by decide), ?_,
    hfold .and amount count [chain] hno⟩
  exact (hjoin .and chain chain).fields.trans (by decide)

end Screening.Rule
