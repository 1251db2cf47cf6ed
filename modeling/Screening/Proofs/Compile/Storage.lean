import Screening.Proofs.Compile.Canonical
import Screening.Proofs.Document.RoundTrip

/-!
# Storing compiled rules

The limit on nesting bounds the height of a compiled rule's document: a group costs up to eight
levels, a disjunction, a conjunction and a comparison around it. Up to limit 14 every compiled rule
reloads from the text of its document if floats are read with correct rounding. From limit 15 on, and
so under the default limit, some do not.
-/

namespace Screening

/-! ## Heights of derived rules -/

namespace Grammar

/-- How many levels the document of what the symbol derives can have outside of its groups and
negations. -/
def Symbol.levels : Symbol → Nat
  | .atom => 4
  | .comparison | .factor => 6
  | .chain .and => 9
  | .chain .or => 12

theorem levels_chain (op : Junction) : (Symbol.chain op).levels = (operandOf op).levels + 3 := by
  cases op <;> rfl

/-- A group or a negation adds no more than eight levels. -/
theorem Derives.documentHeight_le {symbol d ts rule} (h : Derives symbol d ts rule) :
    rule.documentHeight ≤ 8 * d + symbol.levels := by
  induction h with
  | literal => simp [Rule.documentHeight, Symbol.levels]
  | field => simp [Rule.documentHeight, Symbol.levels]
  | aggregate => simp [Rule.documentHeight, Symbol.levels]
  | group _ _ _ ih =>
    simp only [Symbol.levels] at ih ⊢
    omega
  | operand _ ih =>
    simp only [Symbol.levels] at ih ⊢
    omega
  | compare _ _ _ ihl ihr =>
    simp only [Rule.documentHeight, Symbol.levels] at ihl ihr ⊢
    omega
  | plain _ ih => exact ih
  | negation _ _ _ ih =>
    simp only [Rule.documentHeight, Symbol.levels] at ih ⊢
    omega
  | single _ ih =>
    rw [levels_chain]
    omega
  | @run op d _ _ second more _ _ _ _ _ ih ihs =>
    have hmore : Rule.documentHeightAll (more.map Link.rule) ≤ 8 * d + (operandOf op).levels :=
      Rule.documentHeightAll_le_iff.2
        (List.forall_mem_map.2 fun link hl => ihs link (List.mem_cons_of_mem _ hl))
    have hsecond := ihs second List.mem_cons_self
    rw [levels_chain, Rule.documentHeight]
    omega

end Grammar

open Grammar

theorem documentHeight_le_of_compile {options : CompileOptions} {text : String}
    {category : Category} {rule : Rule} (h : compile options text category = .ok rule) :
    rule.documentHeight ≤ 8 * options.maxDepth + 12 := by
  obtain ⟨ts, hp⟩ := exists_passes h
  obtain ⟨symbol, hd⟩ := hp.generates.derives
  have hle := hd.documentHeight_le
  have hlevels : symbol.levels ≤ 12 := by
    cases symbol with
    | chain op => cases op <;> decide
    | _ => decide
  omega

/-! ## The highest documents -/

namespace Rule

/-- The comparison of an attribute with the rule. -/
def compared (rule : Rule) : Rule := .comparison .equal (.field .time) rule

/-- A number that an attribute is compared with. -/
def one : Rule := .literal (.int32 1)

/-- A comparison with the rule, in a conjunction in a disjunction: the most that can stand between
one group and the next. -/
def deepen (rule : Rule) : Rule :=
  .junction .or (compared one) (.junction .and (compared one) (compared rule) []) []

/-- Groups in groups, as high as they can be. -/
def tower : Nat → Rule
  | 0 => deepen one
  | k + 1 => deepen (tower k)

theorem documentHeight_tower (k : Nat) : (tower k).documentHeight = 8 * k + 10 := by
  induction k with
  | zero => rfl
  | succ k ih =>
    simp only [tower, deepen, compared, one, documentHeight, documentHeightAll, ih]
    omega

theorem isCondition_tower (k : Nat) : (tower k).isCondition = true := by
  cases k <;> rfl

theorem grouped_compared (op : LogicOp) (rule : Rule) : (compared rule).grouped op = false := rfl

theorem grouped_conjunction (first second : Rule) :
    (junction .and first second []).grouped .or = false := rfl

/-- The canonical text of a comparison with a condition has it in a group. -/
theorem nesting_compared {rule : Rule} (hc : rule.isCondition = true) :
    (compared rule).nesting = rule.nesting + 1 := by
  have hfield : (field .time).isCondition = false := rfl
  simp [compared, nesting, hc, hfield]

theorem nesting_deepen {rule : Rule} (hc : rule.isCondition = true) :
    (deepen rule).nesting = rule.nesting + 1 := by
  have hone : (compared one).nesting = 0 := rfl
  simp [deepen, nesting, nestingMore, grouped_compared, grouped_conjunction, hone,
    nesting_compared hc, Junction.op]

theorem nesting_tower (k : Nat) : (tower k).nesting = k := by
  induction k with
  | zero => rfl
  | succ k ih => rw [tower, nesting_deepen (isCondition_tower k), ih]

theorem printable_one : one.Printable := printable_literal trivial trivial

theorem Printable.compared {rule : Rule} (h : rule.Printable) : (compared rule).Printable :=
  (printable_field .time).comparison h

theorem Printable.deepen {rule : Rule} (h : rule.Printable) : (deepen rule).Printable := by
  have hand : (Rule.junction .and (Rule.compared one) (Rule.compared rule) []).Printable := by
    refine Printable.junction ?_ ?_
    · simp [printable_one.compared, h.compared]
    · simp [Rule.compared, isCondition]
  refine Printable.junction ?_ ?_
  · simp [printable_one.compared, hand]
  · simp [Rule.compared, isCondition]

theorem printable_tower (k : Nat) : (tower k).Printable := by
  induction k with
  | zero => exact printable_one.deepen
  | succ k ih => exact ih.deepen

theorem hasShape_tower (k : Nat) : (tower k).HasShape .composite := by
  refine ⟨isCondition_tower k, ⟨tower k, mem_nodes_self _, by cases k <;> rfl⟩, ?_⟩
  induction k with
  | zero => simp [tower, deepen, compared, one, nodes, nodesAll, isAggregate]
  | succ k ih =>
    simpa [tower, deepen, compared, one, nodes, nodesAll, isAggregate] using ih

theorem utf8ByteSize_compared {rule : Rule} (hc : rule.isCondition = true) :
    (compared rule).text.utf8ByteSize = rule.text.utf8ByteSize + 9 := by
  simp only [compared, text, hc, parenthesize, if_true, String.utf8ByteSize_append]
  -- the name, the symbol between blanks, and the parentheses
  show 4 + 1 + 1 + 1 + (1 + rule.text.utf8ByteSize + 1) = rule.text.utf8ByteSize + 9
  omega

theorem utf8ByteSize_deepen {rule : Rule} (hc : rule.isCondition = true) :
    (deepen rule).text.utf8ByteSize = rule.text.utf8ByteSize + 34 := by
  have hone : (compared one).text.utf8ByteSize = 8 := rfl
  simp only [deepen, text, textMore, parenthesize, grouped_compared, grouped_conjunction, hone,
    utf8ByteSize_compared hc, Junction.op, Bool.false_eq_true, if_false,
    String.utf8ByteSize_append]
  -- both names of operators stand between blanks
  show 8 + (1 + 2 + 1 + (8 + (1 + 3 + 1 + (rule.text.utf8ByteSize + 9)) + 0)) + 0 =
    rule.text.utf8ByteSize + 34
  omega

theorem utf8ByteSize_text_tower (k : Nat) : (tower k).text.utf8ByteSize = 34 * k + 33 := by
  induction k with
  | zero => rfl
  | succ k ih =>
    rw [tower, utf8ByteSize_deepen (isCondition_tower k), ih]
    omega

/-- The canonical text of a tower compiles under any limit that its groups keep. -/
theorem compile_text_tower {k d : Nat} (hk : k ≤ 100) (hd : k ≤ d) :
    compile { maxDepth := d } (tower k).text .composite = .ok (tower k) := by
  refine compile_text (printable_tower k) (hasShape_tower k) rfl ?_ ?_
  · rw [utf8ByteSize_text_tower]
    show 34 * k + 33 ≤ 4096
    omega
  · rw [nesting_tower]
    exact hd

end Rule

/-! ## Stored rules -/

/-- A compiled rule reloads from the text of its document exactly if the document is at most 127 high,
provided that floats are read with correct rounding. All rules that compile under a limit on nesting
do exactly if the limit is at most 14. -/
theorem reloads_of_compile {floats : Json.FloatReading} (hfloats : floats.CorrectlyRounded) (d : Nat) :
    (∀ text category rule, compile { maxDepth := d } text category = .ok rule →
      rule.documentHeight ≤ 8 * d + 12 ∧
        (Rule.ofJsonText rule.jsonText floats = .ok rule ↔ rule.documentHeight ≤ 127)) ∧
      ((∀ text category rule, compile { maxDepth := d } text category = .ok rule →
        Rule.ofJsonText rule.jsonText floats = .ok rule) ↔ d ≤ 14) := by
  refine ⟨fun text category rule h => ⟨documentHeight_le_of_compile h,
    rule.ofJsonText_jsonText_eq_ok_iff hfloats⟩, fun hall => ?_, fun hd text category rule h => ?_⟩
  · by_contra hd
    -- fifteen groups in one another are enough for 130 levels
    have hcompile := Rule.compile_text_tower (k := 15) (d := d) (by omega) (by omega)
    have hreload := hall _ _ _ hcompile
    rw [Rule.ofJsonText_jsonText_eq_ok_iff hfloats, Rule.documentHeight_tower] at hreload
    omega
  · have hle : rule.documentHeight ≤ 8 * d + 12 := documentHeight_le_of_compile h
    exact (rule.ofJsonText_jsonText_eq_ok_iff hfloats).2 (by omega)

/-- A comparison under so many negations. -/
def Rule.negations : Nat → Rule
  | 0 => .comparison .greaterThan (.field .amount) (.literal (.int32 1))
  | n + 1 => .negation (negations n)

theorem reloads_negation :
    compile { maxDepth := 14 } "NOT AMOUNT > 1" .composite = .ok (Rule.negations 1) ∧
      Rule.ofJsonText (Rule.negations 1).jsonText .nearest = .ok (Rule.negations 1) := by
  have hcompile : compile { maxDepth := 14 } "NOT AMOUNT > 1" .composite = .ok (Rule.negations 1) := by
    decide +kernel
  have hreloads := reloads_of_compile Json.FloatReading.correctlyRounded_nearest 14
  exact ⟨hcompile, hreloads.2.2 (Nat.le_refl 14) _ _ _ hcompile⟩

/-- Forty-two negations compile under the default limit, and what they compile to does not reload,
whether floats are read with a best effort or with correct rounding. -/
theorem not_reloads_negations :
    ∃ rule : Rule,
      compile {} ("NOT NOT NOT NOT NOT NOT NOT NOT NOT NOT NOT NOT NOT NOT " ++
          "NOT NOT NOT NOT NOT NOT NOT NOT NOT NOT NOT NOT NOT NOT " ++
          "NOT NOT NOT NOT NOT NOT NOT NOT NOT NOT NOT NOT NOT NOT AMOUNT > 1")
        .composite = .ok rule ∧
      Rule.ofJsonText rule.jsonText = .error .malformed ∧
      ∀ floats : Json.FloatReading, floats.CorrectlyRounded →
        Rule.ofJsonText rule.jsonText floats = .error .malformed := by
  have hheight : (Rule.negations 42).documentHeight = 130 := rfl
  have hfails {floats : Json.FloatReading} {f} (hf : floats.Rereads f) :
      Rule.ofJsonText (Rule.negations 42).jsonText floats = .error .malformed := by
    rw [Rule.ofJsonText_jsonText hf, hheight]
    rfl
  exact ⟨.negations 42, by decide +kernel, hfails Json.FloatReading.rereads_bestEffort,
    fun floats hfloats => hfails hfloats.rereads⟩

end Screening
