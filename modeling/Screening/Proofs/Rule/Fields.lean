import Screening.Proofs.Rule.Nodes

/-!
# Fields of rules

The fields that a rule speaks of are collected node by node, and a field that was collected is not
added again. So each is there once, and a field is there exactly if it is mentioned somewhere in the
tree, as an operand or as the argument of an aggregate.
-/

namespace Screening.Rule

/-! ## Each once -/

section Collecting

variable {α : Type} [DecidableEq α]

/-- What is added is what is neither there nor repeated. -/
theorem foldl_addNew (xs : List α) :
    ∀ seen, xs.foldl addNew seen = seen ++ (xs.filter (· ∉ seen)).eraseDups := by
  induction xs with
  | nil => simp
  | cons x xs ih =>
    intro seen
    rw [List.foldl_cons, ih, addNew]
    by_cases hx : x ∈ seen
    · rw [if_pos hx, List.filter_cons_of_neg (by simpa using hx)]
    · rw [if_neg hx, List.filter_cons_of_pos (by simpa using hx), List.eraseDups_cons,
        List.filter_filter, List.append_assoc, List.singleton_append]
      have hfilter : xs.filter (· ∉ seen ++ [x]) =
          xs.filter fun y => !y == x && decide (y ∉ seen) := by
        apply List.filter_congr
        intro y _
        by_cases hy : y = x <;> simp [hy]
      rw [hfilter]

theorem map_foldl_addNew {β : Type} [DecidableEq β] {f : α → β} (hf : Function.Injective f)
    (xs : List α) : ∀ seen, (xs.foldl addNew seen).map f = (xs.map f).foldl addNew (seen.map f) := by
  induction xs with
  | nil => simp
  | cons x xs ih =>
    intro seen
    rw [List.foldl_cons, ih, List.map_cons, List.foldl_cons, addNew, addNew]
    have hmem : f x ∈ seen.map f ↔ x ∈ seen := by
      constructor
      · intro h
        obtain ⟨y, hy, hxy⟩ := List.mem_map.1 h
        exact hf hxy ▸ hy
      · exact List.mem_map_of_mem
    simp only [hmem]
    split <;> simp

/-- Leaving values out before they are collected is leaving them out of the collection. -/
theorem filter_foldl_addNew (p : α → Bool) (xs : List α) :
    ∀ seen, (xs.foldl addNew seen).filter p = (xs.filter p).foldl addNew (seen.filter p) := by
  induction xs with
  | nil => simp
  | cons x xs ih =>
    intro seen
    have hstep : (addNew seen x).filter p =
        if p x = true then addNew (seen.filter p) x else seen.filter p := by
      unfold addNew
      by_cases hp : p x = true <;> by_cases hx : x ∈ seen <;> simp [hp, hx]
    rw [List.foldl_cons, ih, hstep, List.filter_cons]
    split <;> rfl

theorem nodup_foldl_addNew (xs : List α) :
    ∀ seen : List α, seen.Nodup → (xs.foldl addNew seen).Nodup := by
  induction xs with
  | nil => exact fun _ h => h
  | cons x xs ih =>
    intro seen h
    refine ih _ ?_
    rw [addNew]
    split
    · exact h
    · next hx =>
      refine List.nodup_append.2 ⟨h, by simp, ?_⟩
      rintro a ha b hb rfl
      exact hx (List.mem_singleton.1 hb ▸ ha)

/-- Collecting goes on with what is not there yet. -/
theorem foldl_addNew_append (xs ys : List α) :
    (xs ++ ys).foldl addNew [] =
      xs.foldl addNew [] ++ (ys.foldl addNew []).filter (· ∉ xs.foldl addNew []) := by
  rw [List.foldl_append, filter_foldl_addNew, List.filter_nil, foldl_addNew,
    foldl_addNew (ys.filter _) [], List.nil_append, List.filter_filter]
  simp

end Collecting

/-- The fields of a rule are those that its nodes speak of, without repetitions. -/
theorem map_name_fields (rule : Rule) :
    rule.fields.map Field.name =
      (rule.nodes.filterMap fun node => node.field?.map Field.name).eraseDups := by
  have hinjective : Function.Injective Field.name := Named.name_injective
  rw [fields, map_foldl_addNew hinjective, List.map_nil, foldl_addNew, List.nil_append,
    List.map_filterMap, List.filter_eq_self.2 (by simp)]

theorem nodup_fields (rule : Rule) : rule.fields.Nodup :=
  nodup_foldl_addNew _ [] List.nodup_nil

/-! ## Mentioned fields -/

/-- The field occurs in the rule, as an operand or as the argument of an aggregate. -/
inductive Mentions (name : Field) : Rule → Prop
  | field : Mentions name (.field name)
  | argument (function) : Mentions name (.aggregate ⟨function, .field name⟩)
  | left {op left right} : Mentions name left → Mentions name (.comparison op left right)
  | right {op left right} : Mentions name right → Mentions name (.comparison op left right)
  | operand {rule op operands operand} : rule.logical? = some (op, operands) →
      operand ∈ operands → Mentions name operand → Mentions name rule

theorem mentions_iff {name : Field} {rule : Rule} :
    Mentions name rule ↔ ∃ node ∈ rule.nodes, node.field? = some name := by
  constructor
  · intro h
    induction h with
    | field => exact ⟨_, mem_nodes_self _, rfl⟩
    | argument => exact ⟨_, mem_nodes_self _, rfl⟩
    | left _ ih =>
      obtain ⟨node, hn, hname⟩ := ih
      exact ⟨node, mem_nodes_comparison.2 (.inr (.inl hn)), hname⟩
    | right _ ih =>
      obtain ⟨node, hn, hname⟩ := ih
      exact ⟨node, mem_nodes_comparison.2 (.inr (.inr hn)), hname⟩
    | operand hl ho _ ih =>
      obtain ⟨node, hn, hname⟩ := ih
      exact ⟨node, (mem_nodes_of_logical? hl).2 (.inr ⟨_, ho, hn⟩), hname⟩
  · rintro ⟨node, hn, hname⟩
    induction rule with
    | literal =>
      obtain rfl := List.mem_singleton.1 hn
      cases hname
    | field =>
      obtain rfl := List.mem_singleton.1 hn
      cases hname
      exact .field
    | wildcard =>
      obtain rfl := List.mem_singleton.1 hn
      cases hname
    | aggregate call =>
      obtain rfl := List.mem_singleton.1 hn
      obtain ⟨function, _ | _⟩ := call <;> cases hname
      exact .argument function
    | comparison op left right ihl ihr =>
      rcases mem_nodes_comparison.1 hn with rfl | hn | hn
      · cases hname
      · exact .left (ihl hn)
      · exact .right (ihr hn)
    | negation operand ih =>
      rcases mem_nodes_negation.1 hn with rfl | hn
      · cases hname
      · exact .operand rfl (List.mem_singleton_self _) (ih hn)
    | junction op first second more ihf ihs ihm =>
      rcases mem_nodes_junction.1 hn with rfl | ⟨operand, ho, hin⟩
      · cases hname
      · have hmentions : Mentions name operand := by
          rcases List.mem_cons.1 ho with rfl | hrest
          · exact ihf hin
          · rcases List.mem_cons.1 hrest with rfl | hmore
            · exact ihs hin
            · exact ihm operand hmore hin
        exact .operand rfl ho hmentions

/-- The fields of a rule are those that are mentioned in it. -/
theorem mem_fields_iff {name : Field} {rule : Rule} :
    name ∈ rule.fields ↔ Mentions name rule := by
  rw [fields, foldl_addNew, List.nil_append, List.mem_eraseDups, mentions_iff]
  simp [List.mem_filterMap]

end Screening.Rule
