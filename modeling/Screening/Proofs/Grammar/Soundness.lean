import Screening.Proofs.Grammar.Reader

/-!
# What is read is derived

A production that succeeds has taken a front part of the tokens, and its symbol derives that
part as the rule returned. The budget of the derivation is the room that the production had.
-/

namespace Screening.Grammar

variable {s : Setting}

/-- What is read inside a group or a negation. -/
def Inner.symbol : Inner → Symbol
  | .group => .chain .or
  | .negated => .factor

/-- The production that reads a symbol while `room` more groups and negations may be opened. -/
def production (s : Setting) (room : Nat) : Symbol → Production
  | .chain .or => expression s (innerAt s room)
  | .chain .and => chain s .and (factor s (innerAt s room))
  | .factor => factor s (innerAt s room)
  | .comparison => comparison s (innerAt s room)
  | .atom => atom s (innerAt s room)

theorem production_chain (op : Junction) (room : Nat) :
    production s room (.chain op) = chain s op (production s room (operandOf op)) := by
  cases op <;> rfl

theorem innerAt_succ (kind : Inner) (room opened : Nat) :
    innerAt s (room + 1) kind opened = production s room kind.symbol := by
  cases kind <;> rfl

/-- The reader takes nothing but what the symbol derives within the budget. -/
def Sound (reader : Production) (symbol : Symbol) (budget : Nat) : Prop :=
  ∀ ⦃ts rule rest⦄, reader ts = .ok (rule, rest) →
    ∃ taken, ts = taken ++ rest ∧ Derives symbol budget taken rule

/-- Whatever is opened leaves one less of the budget to what stands inside. -/
def InnerSound (inner : InnerReader) (budget : Nat) : Prop :=
  ∀ ⦃kind opened ts rule rest⦄, inner kind opened ts = .ok (rule, rest) →
    ∃ d, budget = d + 1 ∧ ∃ taken, ts = taken ++ rest ∧ Derives kind.symbol d taken rule

section Productions

variable {inner : InnerReader} {budget : Nat}

/-! ## Operands and comparisons -/

theorem numberOf_eq_ok {t v} :
    numberOf s t = .ok v ↔ Literal.ofNumberText? t.text = some v := by
  simp only [numberOf]
  cases Literal.ofNumberText? t.text <;> simp

theorem atom_sound (hi : InnerSound inner budget) : Sound (atom s inner) .atom budget := by
  intro ts rule rest h
  cases ts with
  | nil => simp [atom] at h
  | cons t us =>
    simp only [atom] at h
    -- the kind of the token decides which derivation it is, and the last four kinds begin none
    split at h
    · next hk =>
      obtain ⟨v, hv, h⟩ := bind_eq_ok.1 h
      cases h
      exact ⟨[t], rfl, .literal (.number hk (numberOf_eq_ok.1 hv))⟩
    · next hk =>
      split at h
      · next body hbody =>
        cases h
        obtain ⟨quote, hq, ht⟩ := unquote?_eq_some.1 hbody
        have hd := Denotes.string hk hq ht
        rw [String.ofList_toList] at hd
        exact ⟨[t], rfl, .literal hd⟩
      · simp at h
    · next hk =>
      cases h
      exact ⟨[t], rfl, .literal (.bool hk)⟩
    · next hk =>
      obtain ⟨name, hn, h⟩ := bind_eq_ok.1 h
      cases h
      exact ⟨[t], rfl, .field hk (fieldOf_eq_ok.1 hn)⟩
    · next hk =>
      cases h
      exact ⟨[t], rfl, .literal (.word hk)⟩
    · next hk =>
      obtain ⟨opening, arg, closing, function, operand, rfl, hf, ho, ha, hc, rfl⟩ :=
        aggregate_eq_ok.1 h
      exact ⟨[t, opening, arg, closing], rfl, .aggregate hk hf ho ha hc⟩
    · next hk =>
      obtain ⟨⟨inside, vs⟩, hin, h⟩ := bind_eq_ok.1 h
      obtain ⟨⟨closing, ws⟩, hc, h⟩ := bind_eq_ok.1 h
      cases h
      obtain ⟨d, rfl, taken, rfl, hd⟩ := hi hin
      obtain ⟨rfl, hclosing⟩ := expect_eq_ok.1 hc
      exact ⟨t :: (taken ++ [closing]), by simp, .group hk hd hclosing⟩
    · simp at h
    · simp at h
    · simp at h
    · simp at h

theorem comparison_sound (hi : InnerSound inner budget) :
    Sound (comparison s inner) .comparison budget := by
  intro ts rule rest h
  obtain ⟨⟨left, us⟩, hl, hus⟩ := bind_eq_ok.1 h
  obtain ⟨ls, rfl, hleft⟩ := atom_sound hi hl
  simp only at hus
  split at hus
  · obtain ⟨⟨op, vs⟩, ho, hvs⟩ := bind_eq_ok.1 hus
    obtain ⟨⟨right, ws⟩, hr, hws⟩ := bind_eq_ok.1 hvs
    cases hws
    obtain ⟨t, rfl, ht⟩ := comparator_eq_ok.1 ho
    obtain ⟨rs, rfl, hright⟩ := atom_sound hi hr
    exact ⟨ls ++ t :: rs, by simp, .compare hleft ht hright⟩
  · cases hus
    exact ⟨ls, rfl, .operand hleft⟩

/-! ## Negations and chains -/

theorem condition_eq_ok {op operand ts rule rest} :
    condition s op operand ts = .ok (rule, rest) ↔
      operand ts = .ok (rule, rest) ∧ rule.isCondition = true := by
  simp only [condition, bind_eq_ok, Prod.exists]
  constructor
  · intro hx
    obtain ⟨rule', rest', hr, h⟩ := hx
    split at h
    · cases h
      exact ⟨hr, ‹_›⟩
    · simp at h
  · intro hx
    obtain ⟨hr, hc⟩ := hx
    exact ⟨rule, rest, hr, by simp [hc]; rfl⟩

theorem factor_sound (hi : InnerSound inner budget) : Sound (factor s inner) .factor budget := by
  intro ts rule rest h
  cases ts with
  | nil =>
    obtain ⟨taken, ht, hd⟩ := comparison_sound hi h
    exact ⟨taken, ht, .plain hd⟩
  | cons t us =>
    simp only [factor] at h
    split at h
    · next hnot =>
      obtain ⟨⟨inside, vs⟩, hin, h⟩ := bind_eq_ok.1 h
      cases h
      obtain ⟨hin, hc⟩ := condition_eq_ok.1 hin
      obtain ⟨d, rfl, taken, rfl, hd⟩ := hi hin
      exact ⟨t :: taken, rfl, .negation hnot hd hc⟩
    · obtain ⟨taken, ht, hd⟩ := comparison_sound hi h
      exact ⟨taken, ht, .plain hd⟩

/-- The operands after the first are the links of a run, whatever number of steps is allowed. -/
theorem moreOperands_sound {op operand symbol} (ho : Sound operand symbol budget) {steps} :
    ∀ {ts rules rest}, moreOperands s op operand steps ts = .ok (rules, rest) →
      ∃ links : List Link, rules = links.map Link.rule ∧ ts = links.flatMap Link.span ++ rest ∧
        (∀ link ∈ links, isLogic op.op link.joint = true) ∧
        (∀ link ∈ links, Derives symbol budget link.tokens link.rule) ∧
        (∀ link ∈ links, link.rule.isCondition = true) := by
  induction steps with
  | zero =>
    intro ts rules rest h
    cases h
    exact ⟨[], by simp⟩
  | succ steps ih =>
    intro ts rules rest h
    cases ts with
    | nil =>
      cases h
      exact ⟨[], by simp⟩
    | cons t us =>
      simp only [moreOperands] at h
      split at h
      · next hj =>
        -- the operator and its operand are one link, and the steps left read the others
        obtain ⟨⟨rule, vs⟩, hr, h⟩ := bind_eq_ok.1 h
        obtain ⟨⟨later, ws⟩, hl, h⟩ := bind_eq_ok.1 h
        cases h
        obtain ⟨hr, hc⟩ := condition_eq_ok.1 hr
        obtain ⟨taken, rfl, hd⟩ := ho hr
        obtain ⟨links, rfl, rfl, hjs, hds, hcs⟩ := ih hl
        refine ⟨⟨t, taken, rule⟩ :: links, rfl, by simp [Link.span], ?_, ?_, ?_⟩
        · simpa [hj] using hjs
        · simpa [hd] using hds
        · simpa [hc] using hcs
      · cases h
        exact ⟨[], by simp⟩

theorem chain_sound {op operand} (ho : Sound operand (operandOf op) budget) :
    Sound (chain s op operand) (.chain op) budget := by
  intro ts rule rest h
  rw [chain_eq] at h
  obtain ⟨⟨first, us⟩, hf, h⟩ := bind_eq_ok.1 h
  obtain ⟨taken, rfl, hd⟩ := ho hf
  cases us with
  | nil =>
    cases h
    exact ⟨taken, rfl, .single hd⟩
  | cons t after =>
    simp only at h
    split at h
    · next hj =>
      split at h
      · next hc =>
        obtain ⟨⟨second, vs⟩, hs, h⟩ := bind_eq_ok.1 h
        obtain ⟨⟨more, ws⟩, hm, h⟩ := bind_eq_ok.1 h
        cases h
        obtain ⟨hs, hcs⟩ := condition_eq_ok.1 hs
        obtain ⟨behind, rfl, hds⟩ := ho hs
        obtain ⟨links, rfl, rfl, hjl, hdl, hcl⟩ := moreOperands_sound ho hm
        let link : Link := ⟨t, behind, second⟩
        refine ⟨taken ++ (link :: links).flatMap Link.span, by simp [link, Link.span],
          @Derives.run _ _ _ _ link links hd hc ?_ ?_ ?_⟩
        · simpa [link, hj] using hjl
        · simpa [link, hds] using hdl
        · simpa [link, hcs] using hcl
      · simp at h
    · cases h
      exact ⟨taken, rfl, .single hd⟩

/-- Every symbol's production is sound if what it opens is. -/
theorem expression_sound (hi : InnerSound inner budget) :
    Sound (expression s inner) (.chain .or) budget := by
  have hterm : Sound (chain s .and (factor s inner)) (.chain .and) budget :=
    chain_sound (factor_sound hi)
  exact chain_sound hterm

end Productions

/-! ## All rooms -/

theorem innerAt_sound (room : Nat) : InnerSound (innerAt s room) room := by
  induction room with
  | zero =>
    intro kind opened ts rule rest h
    simp [innerAt] at h
  | succ room ih =>
    intro kind opened ts rule rest h
    refine ⟨room, rfl, ?_⟩
    cases kind with
    | group => exact expression_sound ih h
    | negated => exact factor_sound ih h

/-- Reading is sound: the rule read off all tokens is one that the category generates. -/
theorem generates_of_read {ts rule} (h : read s ts = .ok rule) :
    Generates s.category s.maxDepth ts rule := by
  have hi : InnerSound (innerAt s s.maxDepth) s.maxDepth := innerAt_sound s.maxDepth
  obtain ⟨⟨rule', rest⟩, he, h⟩ := bind_eq_ok.1 h
  cases rest with
  | cons t rest => simp at h
  | nil =>
    cases h
    simp only [entry] at he
    split at he
    · next hcat =>
      rw [hcat]
      obtain ⟨⟨node, us⟩, hn, hus⟩ := bind_eq_ok.1 he
      obtain ⟨taken, rfl, hd⟩ := comparison_sound hi hn
      simp only at hus
      split at hus
      · cases hus
        simpa using Generates.threshold hd
      · simp at hus
      · simp at hus
    · next hcat =>
      rw [hcat]
      obtain ⟨⟨left, us⟩, hl, hus⟩ := bind_eq_ok.1 he
      obtain ⟨ls, rfl, hleft⟩ := atom_sound hi hl
      simp only at hus
      split at hus
      · obtain ⟨⟨op, vs⟩, ho, hvs⟩ := bind_eq_ok.1 hus
        obtain ⟨⟨right, ws⟩, hr, hws⟩ := bind_eq_ok.1 hvs
        obtain ⟨t, rfl, ht⟩ := comparator_eq_ok.1 ho
        obtain ⟨rs, rfl, hright⟩ := atom_sound hi hr
        simp only at hws
        split at hws
        · cases hws
          simpa using Generates.pattern hleft ht hright
        · simp at hws
      · simp at hus
    · next hcat =>
      rw [hcat]
      obtain ⟨taken, rfl, hd⟩ := expression_sound hi he
      simpa using Generates.composite hd

end Screening.Grammar
