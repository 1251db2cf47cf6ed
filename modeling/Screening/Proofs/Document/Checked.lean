import Screening.Proofs.Document.Places

/-!
# What decoding checks

Two invariants of rules whose documents can be edited by hand. How many operands a logical node has
is checked at every place where one stands. Where a star stands is not checked: a decoded rule has a
star outside an aggregate exactly if its document says so.
-/

namespace Screening

open Json (Draft)

namespace Decode

variable {source : Source}

/-! ## Miscounted operands -/

/-- The draft spells a name. -/
def Spells {τ : Type} [Named τ] (a : τ) (draft : Draft) : Prop :=
  draft = .string (some (Named.name a)) ∨ draft = alternative a .null

theorem eq_of_spells {τ : Type} [Named τ] {a b : τ} {room : Nat} {draft : Draft}
    (h : Spells a draft) (hb : name τ source room draft = .ok b) : b = a := by
  rcases name_eq_ok_iff.1 hb with rfl | ⟨-, rfl⟩
  · rcases h with h | h
    · simpa [name_inj] using h
    · cases h
  · rcases h with h | h
    · cases h
    · exact (alternative_inj.1 h).1

/-- The draft is one of a logical node with another number of operands than its operator takes. -/
def Miscounts (draft : Draft) : Prop :=
  ∃ (body operator : Draft) (op : LogicOp) (items : List Draft) (closed : Bool),
    draft = alternative RuleTag.logical body ∧
      (LogicalPart.operator, operator) ∈ found LogicalPart body ∧ Spells op operator ∧
      (LogicalPart.operands, .array items closed) ∈ found LogicalPart body ∧
      ¬ op.Takes items.length

/-- Such a draft is not decoded, whatever its operands are. -/
theorem Miscounts.not_decoded {draft : Draft} (h : Miscounts draft) {room : Nat} {a : Rule} :
    rule source room draft ≠ .ok a := by
  obtain ⟨body, operator, op, items, closed, rfl, hoperator, hspells, hitems, htakes⟩ := h
  intro ha
  obtain ⟨r, body', rfl, hbody, ha⟩ := rule_eq_ok_iff.1 ha
  obtain ⟨htag, rfl⟩ := alternative_inj.1 hbody
  rw [← htag] at ha
  obtain ⟨s, part, op', operands, rfl, hholds, hop, hoperands, hnode⟩ := logical_eq_ok_iff.1 ha
  rw [← hholds.eq hoperator] at hop
  rw [← hholds.eq hitems] at hoperands
  obtain rfl := eq_of_spells hspells hop
  obtain ⟨items', t, rfl, heq, hall⟩ := sequence_eq_ok_iff.1 hoperands
  obtain ⟨rfl, -⟩ := Draft.array.inj heq
  apply htakes
  rw [hall.length_eq]
  exact Rule.takes_of_logical? (logical?_of_ofOperands hnode)

/-- Nor is one with such a draft at one of its places. -/
theorem Reaches.not_decoded {whole part : Draft} (h : Reaches whole part) (hpart : Miscounts part)
    {room : Nat} {a : Rule} : rule source room whole ≠ .ok a := by
  intro ha
  obtain ⟨r, b, hb, -⟩ := h.decoded ha
  exact hpart.not_decoded hb

end Decode

namespace Rule

open Decode

/-! ## Logical nodes built of parts -/

/-- What a chain of `op` takes over from a rule on its left: the operands if the rule is a chain of
`op` itself, and the rule otherwise. -/
def linked (op : Junction) (rule : Rule) : List Rule :=
  match rule with
  | .junction op' first second more =>
    if op' = op then first :: second :: more else [rule]
  | _ => [rule]

theorem chained_eq (op : Junction) (left right : Rule) :
    chained op left right = left.linked op ++ [right] := by
  cases left with
  | junction op' first second more =>
    by_cases h : op' = op <;> simp [chained, logical?, linked, h]
  | negation operand => simp [chained, logical?, linked, (op_ne_not op).symm]
  | _ => rfl

theorem logical?_join (op : Junction) (left right : Rule) :
    (join op left right).logical? = some (op.op, left.linked op ++ [right]) := by
  rw [join, logical?_ofChain, chained_eq]

theorem ofOperands_eq_ok_iff {op : LogicOp} {operands : List Rule} {rule : Rule} :
    ofOperands op operands = .ok rule ↔ rule.logical? = some (op, operands) := by
  refine ⟨logical?_of_ofOperands, fun h => ?_⟩
  cases rule with
  | negation operand =>
    cases h
    rfl
  | junction op first second more =>
    cases h
    cases op <;> rfl
  | _ => cases h

/-- Who builds a chain unchecked gets what the check would let pass. -/
theorem ofOperands_ofChain (op : Junction) {operands : List Rule} (h : 2 ≤ operands.length) :
    ofOperands op.op operands = .ok (ofChain op operands h) :=
  ofOperands_eq_ok_iff.2 (logical?_ofChain op operands h)

theorem ofOperands_of_takes {op : LogicOp} {operands : List Rule} (h : op.Takes operands.length) :
    ∃ rule, ofOperands op operands = .ok rule := by
  unfold LogicOp.Takes at h
  split at h
  · subst op
    obtain ⟨operand, rfl⟩ := List.length_eq_one_iff.1 h
    exact ⟨_, rfl⟩
  · obtain ⟨first, second, more, rfl⟩ :
        ∃ first second more, operands = first :: second :: more := by
      match operands, h with
      | first :: second :: more, _ => exact ⟨first, second, more, rfl⟩
    cases op with
    | not => contradiction
    | and | or => exact ⟨_, rfl⟩

theorem ofOperands_eq_error {op : LogicOp} {operands : List Rule}
    (h : ¬ op.Takes operands.length) :
    ofOperands op operands = .error ⟨op, operands.length⟩ := by
  unfold ofOperands
  split
  · exact absurd rfl h
  · simp [LogicOp.Takes] at h
  · simp [LogicOp.Takes] at h
  · rfl

/-! ## The number of operands -/

/-- Every logical node of every rule has as many operands as its operator takes. A node is built of
given operands exactly if the operator takes that many, joining puts a chain together with one
operand more, and neither a text nor a document that has a miscounting node at one of its places is
decoded. -/
theorem arity_kept :
    (∀ rule node : Rule, node ∈ rule.nodes → ∀ op operands, node.logical? = some (op, operands) →
      op.Takes operands.length) ∧
    (∀ op operands rule, ofOperands op operands = .ok rule ↔
      op.Takes operands.length ∧ rule.logical? = some (op, operands)) ∧
    (∀ op operands, ¬ op.Takes operands.length →
      ofOperands op operands = .error ⟨op, operands.length⟩) ∧
    (∀ op operands, op.Takes operands.length → ∃ rule, ofOperands op operands = .ok rule) ∧
    (∀ op left right,
      (join op left right).logical? = some (op.op, left.linked op ++ [right])) ∧
    (∀ text part, Reaches (Json.readDraft text).1 part → Miscounts part →
      ∃ fault, ofJsonText text = .error fault) ∧
    ∀ (document : Json) part, Reaches document.draft part → Miscounts part →
      ∃ fault, ofDocument document = .error fault := by
  refine ⟨fun _ _ _ _ _ => takes_of_logical?, fun op operands rule => ?_,
    fun _ _ => ofOperands_eq_error, fun _ _ => ofOperands_of_takes, logical?_join,
    fun text part hreaches hpart => ?_, fun document part hreaches hpart => ?_⟩
  · rw [ofOperands_eq_ok_iff]
    exact ⟨fun h => ⟨takes_of_logical? h, h⟩, And.right⟩
  · cases h : ofJsonText text with
    | error fault => exact ⟨fault, rfl⟩
    | ok rule => exact absurd (ofJsonText_eq_ok_iff.1 h).2 (hreaches.not_decoded hpart)
  · cases h : ofDocument document with
    | error fault => exact ⟨fault, rfl⟩
    | ok rule => exact absurd h (hreaches.not_decoded hpart)

/-- A conjunction of nothing, one level below a negation, is not decoded. -/
theorem arity_kept_negation :
    ∃ fault, ofDocument (.object [("logical", .object [("operator", .string "NOT"),
      ("operands", .array [
        .object [("logical", .array [.object [("AND", .null)], .array []])]])])]) =
          .error fault := by
  refine arity_kept.2.2.2.2.2.2 _ (alternative RuleTag.logical
    (.array [alternative LogicOp.and .null, .array [] true] true)) (.single ?_) ?_
  · exact .operand (List.mem_cons_of_mem _ List.mem_cons_self) List.mem_cons_self
  · refine ⟨_, _, .and, [], true, rfl, List.mem_cons_self, .inr rfl,
      List.mem_cons_of_mem _ List.mem_cons_self, ?_⟩
    simp [LogicOp.Takes]

/-! ## Stars -/

/-- The rule was decoded from the draft, which is one of a text or of a document. -/
inductive DecodedFrom : Draft → Rule → Prop
  | text {text : String} {rule : Rule} (h : ofJsonText text = .ok rule) :
      DecodedFrom (Json.readDraft text).1 rule
  | document {document : Json} {rule : Rule} (h : ofDocument document = .ok rule) :
      DecodedFrom document.draft rule

theorem DecodedFrom.exists_rule {draft : Draft} {rule : Rule} (h : DecodedFrom draft rule) :
    ∃ source room, Decode.rule source room draft = .ok rule := by
  cases h with
  | text h => exact ⟨_, _, (ofJsonText_eq_ok_iff.1 h).2⟩
  | document h => exact ⟨_, _, h⟩

/-- A decoded rule has a star outside an aggregate exactly if a star stands at a place of a rule in
what it was decoded from. -/
theorem wildcard_mem_nodes_iff {draft : Draft} {rule : Rule} (h : DecodedFrom draft rule) :
    .wildcard ∈ rule.nodes ↔ ∃ body, Reaches draft (alternative RuleTag.wildcard body) := by
  obtain ⟨source, room, h⟩ := h.exists_rule
  constructor
  · intro hn
    obtain ⟨part, r, hreaches, hpart⟩ := exists_reaches h hn
    obtain ⟨s, body, rfl, rfl, -⟩ := rule_eq_ok_iff.1 hpart
    exact ⟨body, hreaches⟩
  · rintro ⟨body, hreaches⟩
    obtain ⟨r, b, hb, hsub⟩ := hreaches.decoded h
    obtain ⟨s, body', rfl, hbody, -⟩ := rule_eq_ok_iff.1 hb
    have hstar : b = .wildcard := eq_wildcard_of_tag (alternative_inj.1 hbody).1.symm
    exact hsub (hstar ▸ mem_nodes_self b)

/-- A comparison of a star with a number, as a text. -/
def starText : String :=
  "\x7b\"comparison\":\x7b\"operator\":\"GREATER_THAN\",\"left\":\x7b\"wildcard\":\x7b\x7d\x7d," ++
    "\"right\":\x7b\"literal\":\x7b\"int_value\":1\x7d\x7d\x7d\x7d"

/-- A comparison of a star with a number. -/
def starRule : Rule := .comparison .greaterThan .wildcard (.literal (.int32 1))

theorem wildcard_mem_nodes_iff_starRule :
    ofDocument starRule.document = .ok starRule ∧
      (.wildcard ∈ starRule.nodes ↔
        ∃ body, Reaches starRule.document.draft (alternative RuleTag.wildcard body)) := by
  have h : ofDocument starRule.document = .ok starRule := by decide +kernel
  exact ⟨h, wildcard_mem_nodes_iff (.document h)⟩

/-- Decoding lets a star stand as a side of a comparison. -/
theorem decodes_starText :
    ofJsonText starText = .ok starRule ∧
      (Json.parse? starText).map ofDocument = some (.ok starRule) ∧
      .wildcard ∈ starRule.nodes := by
  refine ⟨by decide +kernel, by decide +kernel, ?_⟩
  simp [starRule, nodes]

end Rule

end Screening
