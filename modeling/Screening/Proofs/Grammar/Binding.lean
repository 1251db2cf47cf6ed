import Screening.Proofs.Grammar.Derivation
import Screening.Proofs.Rule.Nesting

/-!
# Binding strength

Each symbol derives what the tighter ones derive. A rule has a tightest symbol that derives its
text without parentheses, and is put in parentheses exactly where a tighter one is wanted. The
budget of a derivation is therefore at least the nesting of its rule's canonical text, however
many parentheses the tokens have.
-/

namespace Screening

namespace Grammar

/-! ## Symbols in order -/

namespace Symbol

/-- How loosely a symbol binds. -/
def rank : Symbol → Nat
  | .atom => 0
  | .comparison => 1
  | .factor => 2
  | .chain .and => 3
  | .chain .or => 4

/-- The next looser symbol. Nothing is looser than a whole expression. -/
def looser : Symbol → Symbol
  | .atom => .comparison
  | .comparison => .factor
  | .factor => .chain .and
  | .chain _ => .chain .or

theorem rank_injective {a b : Symbol} (h : a.rank = b.rank) : a = b := by
  rcases a with (_ | _) | _ | _ | _ <;> rcases b with (_ | _) | _ | _ | _ <;>
    simp [rank] at h ⊢

theorem rank_le (a : Symbol) : a.rank ≤ (chain .or).rank := by
  rcases a with (_ | _) | _ | _ | _ <;> decide

theorem rank_looser {a b : Symbol} (h : a.rank < b.rank) : a.looser.rank = a.rank + 1 := by
  have hlt : a.rank < (chain .or).rank := Nat.lt_of_lt_of_le h b.rank_le
  rcases a with (_ | _) | _ | _ | _
  · rfl
  · exact absurd hlt (Nat.lt_irrefl _)
  · rfl
  · rfl
  · rfl

end Symbol

theorem Derives.loosen {a d ts rule} (h : Derives a d ts rule) : Derives a.looser d ts rule := by
  rcases a with (_ | _) | _ | _ | _
  · exact @Derives.single .or _ _ _ h
  · exact h
  · exact @Derives.single .and _ _ _ h
  · exact .plain h
  · exact .operand h

/-- What a symbol derives every looser one derives too. -/
theorem Derives.lift {a b : Symbol} {d ts rule} (h : Derives a d ts rule)
    (hab : a.rank ≤ b.rank) : Derives b d ts rule := by
  -- on the number of steps from one symbol to the other
  obtain ⟨steps, hsteps⟩ := Nat.exists_eq_add_of_le hab
  induction steps generalizing a with
  | zero =>
    rw [← Symbol.rank_injective (a := b) (b := a) (by omega)] at h
    exact h
  | succ steps ih =>
    have hlooser := Symbol.rank_looser (show a.rank < b.rank by omega)
    exact ih h.loosen (by omega) (by omega)

end Grammar

namespace Rule

open Grammar

/-! ## The symbol of a rule -/

/-- The tightest symbol that derives the text of the rule as it stands. -/
def symbol : Rule → Symbol
  | .comparison .. => .comparison
  | .negation _ => .factor
  | .junction op .. => .chain op
  | _ => .atom

/-- Whether the rule needs parentheses where `wanted` is to be derived. -/
def needsGroup (wanted : Symbol) (rule : Rule) : Bool := decide (wanted.rank < rule.symbol.rank)

theorem needsGroup_atom (rule : Rule) : rule.needsGroup .atom = rule.isCondition := by
  cases rule with
  | junction op => cases op <;> rfl
  | _ => rfl

theorem needsGroup_factor (rule : Rule) : rule.needsGroup .factor = rule.grouped .not := by
  cases rule with
  | junction op => cases op <;> rfl
  | _ => rfl

theorem needsGroup_operandOf (op : Junction) (rule : Rule) :
    rule.needsGroup (operandOf op) = rule.grouped op.op := by
  cases rule with
  | junction op' => cases op <;> cases op' <;> rfl
  | _ => cases op <;> rfl

theorem needsGroup_symbol (rule : Rule) : rule.needsGroup rule.symbol = false := by
  simp [needsGroup]

theorem needsGroup_expression (rule : Rule) : rule.needsGroup (.chain .or) = false := by
  simpa [needsGroup] using rule.symbol.rank_le

/-- Where a looser symbol is wanted no more parentheses are needed. -/
theorem needsGroup_mono {a b : Symbol} (rule : Rule) (hab : a.rank ≤ b.rank) :
    (rule.needsGroup b).toNat ≤ (rule.needsGroup a).toNat := by
  by_cases h : b.rank < rule.symbol.rank
  · have : a.rank < rule.symbol.rank := Nat.lt_of_le_of_lt hab h
    simp [needsGroup, h, this]
  · simp [needsGroup, h]

end Rule

namespace Grammar

/-! ## Nesting and budgets -/

/-- A rule fits into the budget of each of its derivations, with the parentheses that its text
would need in the place of the symbol. -/
theorem Derives.nesting_le {symbol d ts rule} (h : Derives symbol d ts rule) :
    rule.nesting + (rule.needsGroup symbol).toNat ≤ d := by
  induction h with
  | literal => exact Nat.zero_le _
  | field => exact Nat.zero_le _
  | aggregate => exact Nat.zero_le _
  | @group d _ _ _ rule _ _ _ ih =>
    -- inside nothing needs parentheses, and outside one pair is enough
    rw [Rule.needsGroup_expression] at ih
    have : (rule.needsGroup .atom).toNat ≤ 1 := Bool.toNat_le _
    simp only [Bool.toNat_false] at ih
    omega
  | @operand _ _ rule _ ih =>
    have : (rule.needsGroup .comparison).toNat ≤ (rule.needsGroup .atom).toNat :=
      rule.needsGroup_mono (by decide)
    omega
  | compare _ _ _ ihl ihr =>
    rw [Rule.needsGroup_atom] at ihl ihr
    rw [show Symbol.comparison = (Rule.comparison _ _ _).symbol from rfl, Rule.needsGroup_symbol,
      Rule.nesting]
    exact Nat.max_le.2 ⟨ihl, ihr⟩
  | @plain _ _ rule _ ih =>
    have : (rule.needsGroup .factor).toNat ≤ (rule.needsGroup .comparison).toNat :=
      rule.needsGroup_mono (by decide)
    omega
  | negation _ _ _ ih =>
    rw [Rule.needsGroup_factor] at ih
    rw [show Symbol.factor = (Rule.negation _).symbol from rfl, Rule.needsGroup_symbol,
      Rule.nesting]
    exact Nat.succ_le_succ ih
  | @single op _ _ rule _ ih =>
    have : (rule.needsGroup (.chain op)).toNat ≤ (rule.needsGroup (operandOf op)).toNat :=
      rule.needsGroup_mono (by cases op <;> decide)
    omega
  | @run op _ _ first second more _ _ _ _ _ ih ihs =>
    rw [show Symbol.chain op = (Rule.junction op first second.rule (more.map Link.rule)).symbol
      from rfl, Rule.needsGroup_symbol]
    refine Rule.nesting_junction_le_iff.2 ?_
    simp only [Rule.needsGroup_operandOf] at ih ihs
    have hlinks : ∀ rule ∈ (second :: more).map Link.rule,
        rule.nesting + (rule.grouped op.op).toNat ≤ _ := List.forall_mem_map.2 ihs
    exact List.forall_mem_cons.2 ⟨ih, hlinks⟩

/-- The canonical text of a generated rule nests no deeper than the tokens may. -/
theorem Generates.nesting_le {category d ts rule} (h : Generates category d ts rule) :
    rule.nesting ≤ d := by
  cases h with
  | threshold h => exact Nat.le_of_add_right_le h.nesting_le
  | pattern => exact Nat.zero_le _
  | composite h => exact Nat.le_of_add_right_le h.nesting_le

end Grammar

end Screening
