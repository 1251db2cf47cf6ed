import Mathlib.Data.List.Forall2
import Mathlib.Order.Monotone.Defs
import Screening.Proofs.Grammar.Reader
import Screening.Proofs.Rule.Alike

/-!
# Two readings side by side

No decision of the reader depends on the place of a token, on the text of a string, or on where the
tokens end. So two readings of token lists that differ in nothing else go the same way: they give
trees that are alike, or fail for the same cause at corresponding places. They may also have
different limits on nesting; then the first can fail where it has exceeded its own.
-/

namespace Screening

/-! ## Faults -/

/-- Two faults have one cause: they tell it of tokens that `T` relates, and of rules that are
alike. -/
inductive SyntaxFault.Alike (T : Token → Token → Prop) (S : String → String → Prop) :
    SyntaxFault → SyntaxFault → Prop
  | found (wanted) {t u} : T t u → Alike T S (.found wanted t) (.found wanted u)
  | noOperand {t u} : T t u → Alike T S (.noOperand t) (.noOperand u)
  | strayWildcard : Alike T S .strayWildcard .strayWildcard
  | badArgument (function) {t u} : T t u →
      Alike T S (.badArgument function t) (.badArgument function u)
  | leftover {t u} : T t u → Alike T S (.leftover t) (.leftover u)
  | numberOutOfRange (text) : Alike T S (.numberOutOfRange text) (.numberOutOfRange text)
  | numberInvalid (text) : Alike T S (.numberInvalid text) (.numberInvalid text)
  | malformedString {t u} : T t u → Alike T S (.malformedString t.text) (.malformedString u.text)
  | unknownField (text) : Alike T S (.unknownField text) (.unknownField text)
  | unknownFunction (text) : Alike T S (.unknownFunction text) (.unknownFunction text)
  | unknownComparator (text) : Alike T S (.unknownComparator text) (.unknownComparator text)
  | noCondition (op) {a b} : a.Alike S b → Alike T S (.noCondition op a) (.noCondition op b)
  | noComparison {a b} : a.Alike S b → Alike T S (.noComparison a) (.noComparison b)
  | noAggregate {a b} : a.Alike S b → Alike T S (.noAggregate a) (.noAggregate b)
  | noLiteral {a b} : a.Alike S b → Alike T S (.noLiteral a) (.noLiteral b)

/-- The fault with another token for the one that it tells of. -/
def SyntaxFault.mapToken (f : Token → Token) : SyntaxFault → SyntaxFault
  | found wanted token => found wanted (f token)
  | noOperand token => noOperand (f token)
  | badArgument function token => badArgument function (f token)
  | leftover token => leftover (f token)
  | fault => fault

theorem SyntaxFault.mapToken_id (fault : SyntaxFault) : fault.mapToken id = fault := by
  cases fault <;> rfl

/-- Faults that tell one cause of the same rules are equal as far as their tokens are. -/
theorem SyntaxFault.Alike.mapToken_eq {T : Token → Token → Prop} {f g : SyntaxFault}
    {change : Token → Token} (h : f.Alike T (· = ·) g) (htext : ∀ t u, T t u → t.text = u.text)
    (hT : ∀ t u, T t u → change t = change u) : f.mapToken change = g.mapToken change := by
  cases h with
  | found wanted htu => simp only [mapToken, hT _ _ htu]
  | noOperand htu => simp only [mapToken, hT _ _ htu]
  | badArgument function htu => simp only [mapToken, hT _ _ htu]
  | leftover htu => simp only [mapToken, hT _ _ htu]
  | malformedString htu => rw [htext _ _ htu]
  | noCondition op hab => rw [Rule.alike_eq_iff.1 hab]
  | noComparison hab => rw [Rule.alike_eq_iff.1 hab]
  | noAggregate hab => rw [Rule.alike_eq_iff.1 hab]
  | noLiteral hab => rw [Rule.alike_eq_iff.1 hab]
  | _ => rfl

namespace Grammar

/-- The token opens a level of nesting: it is a parenthesis or a negation. -/
def Opens (t : Token) : Prop := t.kind = .lparen ∨ isLogic .not t = true

/-- Two readings: their settings, which tokens correspond to each other, and how a string of the
first is related to the string in its place. -/
structure Twins where
  first : Setting
  second : Setting
  Match : Token → Token → Prop
  Text : String → String → Prop
  category : first.category = second.category
  kind : ∀ {t u}, Match t u → t.kind = u.kind
  text : ∀ {t u}, Match t u → t.kind ≠ .string → t.text = u.text
  body : ∀ {t u}, Match t u → t.kind = .string → Option.Rel Text (unquote? t.text) (unquote? u.text)
  refl : ∀ a, Text a a

namespace Twins

variable (r : Twins)

/-! ## Outcomes -/

/-- Both readings fail for one cause, at corresponding tokens, or both at the end. -/
inductive Fails : SyntaxError → SyntaxError → Prop
  | token {t u f g} : r.Match t u → f.Alike r.Match r.Text g →
      Fails ⟨r.first.category, some t.position, f⟩ ⟨r.second.category, some u.position, g⟩
  | finish (wanted) :
      Fails ⟨r.first.category, some r.first.finish, .unexpectedEnd wanted⟩
        ⟨r.second.category, some r.second.finish, .unexpectedEnd wanted⟩
  | tooDeep {t u} : r.Match t u → Opens t → r.first.maxDepth = r.second.maxDepth →
      Fails ⟨r.first.category, some t.position, .tooDeep r.first.maxDepth⟩
        ⟨r.second.category, some u.position, .tooDeep r.second.maxDepth⟩

/-- Both readings give values that `A` relates, or both fail for one cause, or, if `short` holds, the
first fails since it nests too deep. -/
inductive Outcome {α β : Type} (short : Prop) (A : α → β → Prop) :
    Except SyntaxError α → Except SyntaxError β → Prop
  | ok {a b} : A a b → Outcome short A (.ok a) (.ok b)
  | failed {e f} : r.Fails e f → Outcome short A (.error e) (.error f)
  | exceeded {t u y} : short → r.Match t u → Opens t →
      Outcome short A (.error ⟨r.first.category, some t.position, .tooDeep r.first.maxDepth⟩) y

/-- What is left behind two values: corresponding tokens, fewer than `n`. -/
structure Left {α β : Type} (V : α → β → Prop) (n : Nat) (x : Parsed α) (y : Parsed β) : Prop where
  value : V x.1 y.1
  tokens : List.Forall₂ r.Match x.2 y.2
  length_lt : x.2.length < n

/-- Two readers go the same way on corresponding tokens and take one of them at least. Whether the
first can exceed its limit depends on how many tokens it has. -/
def Parallel {α β : Type} (short : Nat → Prop) (V : α → β → Prop)
    (f : List Token → Except SyntaxError (Parsed α))
    (g : List Token → Except SyntaxError (Parsed β)) : Prop :=
  ∀ ⦃ts us⦄, List.Forall₂ r.Match ts us →
    r.Outcome (short ts.length) (r.Left V ts.length) (f ts) (g us)

/-- So do two readers of what stands inside, where the token that opens it counts as well. -/
def InnerParallel (short : Nat → Prop) (inner inner' : InnerReader) : Prop :=
  ∀ kind ⦃t u ts us⦄, r.Match t u → Opens t → List.Forall₂ r.Match ts us →
    r.Outcome (short (ts.length + 1)) (r.Left (Rule.Alike r.Text) ts.length)
      (inner kind t.position ts) (inner' kind u.position us)

variable {r}

namespace Outcome

variable {α β γ δ : Type} {short : Prop} {A : α → β → Prop} {B : γ → δ → Prop}
  {x : Except SyntaxError α} {y : Except SyntaxError β}

theorem bind {f : α → Except SyntaxError γ} {g : β → Except SyntaxError δ}
    (h : r.Outcome short A x y) (hf : ∀ a b, A a b → r.Outcome short B (f a) (g b)) :
    r.Outcome short B (x >>= f) (y >>= g) := by
  cases h with
  | ok hab => exact hf _ _ hab
  | failed he => exact .failed he
  | exceeded hs ht ho => exact .exceeded hs ht ho

theorem mono {short' : Prop} {A' : α → β → Prop} (h : r.Outcome short A x y)
    (hs : short → short') (hA : ∀ a b, A a b → A' a b) : r.Outcome short' A' x y := by
  cases h with
  | ok hab => exact .ok (hA _ _ hab)
  | failed he => exact .failed he
  | exceeded hshort ht ho => exact .exceeded (hs hshort) ht ho

/-- Failing for one cause at corresponding tokens. -/
theorem fail {t u : Token} {f g : SyntaxFault} (ht : r.Match t u)
    (hf : f.Alike r.Match r.Text g) :
    r.Outcome short A (Grammar.fail r.first f t.position) (Grammar.fail r.second g u.position) :=
  .failed (.token ht hf)

end Outcome

section Readers

variable {short : Nat → Prop} {α β : Type} {V : α → β → Prop}

/-- What holds for a rest of the tokens holds for all of them. -/
theorem Outcome.extend {m n : Nat} {x : Except SyntaxError (Parsed α)}
    {y : Except SyntaxError (Parsed β)} (h : r.Outcome (short m) (r.Left V m) x y)
    (hshort : Monotone short) (hle : m ≤ n) : r.Outcome (short n) (r.Left V n) x y := by
  apply h.mono (hshort hle)
  intro x y hxy
  exact ⟨hxy.value, hxy.tokens, Nat.lt_of_lt_of_le hxy.length_lt hle⟩

/-- Failing where the tokens begin, if there are any. -/
theorem Outcome.fail_place {p : Prop} {A : α → β → Prop} {f g : SyntaxFault} {ts us : List Token}
    (h : List.Forall₂ r.Match ts us) (hpos : 0 < ts.length) (hf : f.Alike r.Match r.Text g) :
    r.Outcome p A (Grammar.fail r.first f (place r.first ts))
      (Grammar.fail r.second g (place r.second us)) := by
  cases h with
  | nil => exact absurd hpos (Nat.lt_irrefl 0)
  | cons htu _ => exact .fail htu hf

/-! ## Single tokens -/

theorem expect_parallel (kind : TokenKind) (wanted : Wanted) :
    r.Parallel short (fun t u => r.Match t u ∧ t.kind = kind) (expect r.first kind wanted)
      (expect r.second kind wanted) := by
  intro ts us h
  cases h with
  | nil => exact .failed (.finish wanted)
  | @cons t u ts us htu hrest =>
    simp only [expect, ← r.kind htu]
    by_cases hk : t.kind = kind
    · rw [if_pos hk, if_pos hk]
      exact .ok ⟨⟨htu, hk⟩, hrest, Nat.lt_succ_self _⟩
    · rw [if_neg hk, if_neg hk]
      exact .fail htu (.found wanted htu)

theorem comparator_parallel (wanted : Wanted) :
    r.Parallel short (· = ·) (comparator r.first wanted) (comparator r.second wanted) := by
  intro ts us h
  apply (expect_parallel .comparisonOp wanted h).bind
  intro x y hxy
  obtain ⟨⟨htu, hk⟩, hrest, hlt⟩ := hxy
  have htext : x.1.text = y.1.text := r.text htu (by simp [hk])
  simp only [← htext]
  cases Comparator.ofSymbol? x.1.text with
  | none => exact .fail htu (.unknownComparator _)
  | some op => exact .ok ⟨rfl, hrest, hlt⟩

theorem fieldOf_outcome {short : Prop} {t u : Token} (htu : r.Match t u) (hk : t.kind = .field) :
    r.Outcome short (· = ·) (fieldOf r.first t) (fieldOf r.second u) := by
  have htext : t.text = u.text := r.text htu (by simp [hk])
  simp only [fieldOf, ← htext]
  cases (Named.find? t.text : Option Field) with
  | none => exact .fail htu (.unknownField _)
  | some name => exact .ok rfl

theorem numberOf_outcome {short : Prop} {t u : Token} (htu : r.Match t u)
    (hk : t.kind = .number) :
    r.Outcome short (Literal.Alike r.Text) (numberOf r.first t) (numberOf r.second u) := by
  have htext : t.text = u.text := r.text htu (by simp [hk])
  simp only [numberOf, ← htext]
  cases hvalue : Literal.ofNumberText? t.text with
  | none =>
    by_cases hnumeral : (Number.numeral? t.text.toList).isSome = true
    · simp only [hnumeral, if_true]
      exact .fail htu (.numberOutOfRange _)
    · simp only [hnumeral]
      exact .fail htu (.numberInvalid _)
  | some value =>
    -- the literal is a number, so it is the same
    have hrefl : value.Alike r.Text value := by
      cases value with
      | string s => exact absurd hvalue Literal.ofNumberText?_ne_string
      | _ => rfl
    exact .ok hrefl

/-- Corresponding strings both have quotes around them, or neither has. -/
theorem unquote?_cases {t u : Token} (htu : r.Match t u) (hk : t.kind = .string) :
    unquote? t.text = none ∧ unquote? u.text = none ∨
      ∃ body body', unquote? t.text = some body ∧ unquote? u.text = some body' ∧
        r.Text body body' := by
  have hrel := r.body htu hk
  generalize unquote? t.text = x at hrel ⊢
  generalize unquote? u.text = y at hrel ⊢
  cases hrel with
  | none => exact .inl ⟨rfl, rfl⟩
  | some hbody => exact .inr ⟨_, _, rfl, rfl, hbody⟩

/-! ## Aggregates -/

theorem argument_parallel (function : AggregateFunction) :
    r.Parallel short (· = ·) (argument r.first function) (argument r.second function) := by
  intro ts us h
  cases h with
  | nil => exact .failed (.finish .argument)
  | @cons t u ts us htu hrest =>
    simp only [argument, ← r.kind htu]
    split
    · next hk =>
      apply (fieldOf_outcome htu hk).bind
      intro name name' hname
      exact .ok ⟨congrArg AggregateOperand.field hname, hrest, Nat.lt_succ_self _⟩
    · exact .ok ⟨rfl, hrest, Nat.lt_succ_self _⟩
    · exact .fail htu (.badArgument function htu)

/-- What follows the name of an aggregate function. -/
theorem aggregate_parallel (hshort : Monotone short) {t u : Token} (htu : r.Match t u)
    (hk : t.kind = .aggregateFunction) :
    r.Parallel short (Rule.Alike r.Text) (aggregate r.first t) (aggregate r.second u) := by
  intro ts us h
  have htext : t.text = u.text := r.text htu (by simp [hk])
  simp only [aggregate, ← htext]
  cases (Named.find? t.text : Option AggregateFunction) with
  | none => exact .fail htu (.unknownFunction _)
  | some function =>
    apply (expect_parallel .lparen .openAfterFunction h).bind
    intro opening opening' hopening
    apply ((argument_parallel function hopening.tokens).extend hshort hopening.length_lt.le).bind
    intro operand operand' hoperand
    apply ((expect_parallel .rparen .closeArgument hoperand.tokens).extend hshort
      hoperand.length_lt.le).bind
    intro closing closing' hclosing
    exact .ok ⟨congrArg (Aggregate.mk function) hoperand.value, hclosing.tokens,
      hclosing.length_lt⟩

/-! ## Operands and comparisons -/

variable {inner inner' : InnerReader}

theorem atom_parallel (hshort : Monotone short) (hi : r.InnerParallel short inner inner') :
    r.Parallel short (Rule.Alike r.Text) (atom r.first inner) (atom r.second inner') := by
  intro ts us h
  cases h with
  | nil => exact .failed (.finish .operand)
  | @cons t u ts us htu hrest =>
    have hlt : ts.length < (t :: ts).length := Nat.lt_succ_self _
    simp only [atom, ← r.kind htu]
    split
    · next hk =>
      apply (numberOf_outcome htu hk).bind
      intro value value' hvalue
      exact .ok ⟨hvalue, hrest, hlt⟩
    · next hk =>
      rcases unquote?_cases htu hk with ⟨ht, hu⟩ | ⟨body, body', ht, hu, hbody⟩
      · simp only [ht, hu]
        exact .fail htu (.malformedString htu)
      · simp only [ht, hu]
        exact .ok ⟨hbody, hrest, hlt⟩
    · next hk =>
      have htext : t.text = u.text := r.text htu (by simp [hk])
      rw [← htext]
      exact .ok ⟨rfl, hrest, hlt⟩
    · next hk =>
      apply (fieldOf_outcome htu hk).bind
      intro name name' hname
      exact .ok ⟨hname, hrest, hlt⟩
    · next hk =>
      have htext : t.text = u.text := r.text htu (by simp [hk])
      rw [← htext]
      exact .ok ⟨r.refl _, hrest, hlt⟩
    · next hk => exact (aggregate_parallel hshort htu hk hrest).extend hshort hlt.le
    · next hk =>
      apply (hi .group htu (.inl hk) hrest).bind
      intro inside inside' hinside
      apply ((expect_parallel .rparen .closeGroup hinside.tokens).extend hshort
        (hinside.length_lt.trans hlt).le).bind
      intro closing closing' hclosing
      exact .ok ⟨hinside.value, hclosing.tokens, hclosing.length_lt⟩
    · exact .fail htu .strayWildcard
    · exact .fail htu (.noOperand htu)
    · exact .fail htu (.noOperand htu)
    · exact .fail htu (.noOperand htu)

/-- Corresponding tokens begin with tokens of one kind. -/
theorem head?_kind {ts us : List Token} (h : List.Forall₂ r.Match ts us) :
    ts.head?.map Token.kind = us.head?.map Token.kind := by
  cases h with
  | nil => rfl
  | cons htu _ => simp [r.kind htu]

theorem comparison_parallel (hshort : Monotone short) (hi : r.InnerParallel short inner inner') :
    r.Parallel short (Rule.Alike r.Text) (comparison r.first inner)
      (comparison r.second inner') := by
  intro ts us h
  apply (atom_parallel hshort hi h).bind
  intro left left' hleft
  simp only [← head?_kind hleft.tokens]
  split
  · apply ((comparator_parallel .comparator hleft.tokens).extend hshort hleft.length_lt.le).bind
    intro op op' hop
    apply ((atom_parallel hshort hi hop.tokens).extend hshort hop.length_lt.le).bind
    intro right right' hright
    exact .ok ⟨⟨hop.value, hleft.value, hright.value⟩, hright.tokens, hright.length_lt⟩
  · exact .ok hleft

/-! ## Logical operators -/

/-- A logical operator corresponds to the same operator. -/
theorem isLogic_eq {t u : Token} (htu : r.Match t u) (op : LogicOp) :
    isLogic op t = isLogic op u := by
  simp only [isLogic, ← r.kind htu]
  by_cases hk : t.kind = .logicOp
  · rw [r.text htu (by simp [hk])]
  · rw [beq_eq_false_iff_ne.2 hk, Bool.false_and, Bool.false_and]

theorem condition_outcome {operand operand' : Production} {p : Prop} {ts us : List Token}
    (op : LogicOp) (h : List.Forall₂ r.Match ts us)
    (ho : r.Outcome p (r.Left (Rule.Alike r.Text) ts.length) (operand ts) (operand' us)) :
    r.Outcome p (r.Left (Rule.Alike r.Text) ts.length) (condition r.first op operand ts)
      (condition r.second op operand' us) := by
  apply ho.bind
  intro x y hxy
  obtain ⟨rule, rest⟩ := x
  obtain ⟨rule', rest'⟩ := y
  have hvalue : rule.Alike r.Text rule' := hxy.value
  simp only [← hvalue.isCondition_eq]
  split
  · exact .ok hxy
  · exact .fail_place h (Nat.zero_lt_of_lt hxy.length_lt) (.noCondition op hvalue)

theorem factor_parallel (hshort : Monotone short) (hi : r.InnerParallel short inner inner') :
    r.Parallel short (Rule.Alike r.Text) (factor r.first inner) (factor r.second inner') := by
  intro ts us h
  cases h with
  | nil => exact comparison_parallel hshort hi .nil
  | @cons t u ts us htu hrest =>
    simp only [factor, ← isLogic_eq htu]
    split
    · next hnot =>
      apply (condition_outcome .not hrest (hi .negated htu (.inr hnot) hrest)).bind
      intro x y hxy
      exact .ok ⟨hxy.value, hxy.tokens, hxy.length_lt.trans (Nat.lt_succ_self _)⟩
    · exact comparison_parallel hshort hi (.cons htu hrest)

variable {operand operand' : Production}

/-- Every step takes the same operator in both readings, so they stop at the same place. -/
theorem moreOperands_outcome (hshort : Monotone short) (op : Junction)
    (ho : r.Parallel short (Rule.Alike r.Text) operand operand') (steps : Nat) :
    ∀ {ts us}, List.Forall₂ r.Match ts us →
      r.Outcome (short ts.length) (r.Left (Rule.AlikeAll r.Text) (ts.length + 1))
        (moreOperands r.first op operand steps ts) (moreOperands r.second op operand' steps us) := by
  induction steps with
  | zero =>
    intro ts us h
    exact .ok ⟨trivial, h, Nat.lt_succ_self _⟩
  | succ steps ih =>
    intro ts us h
    cases h with
    | nil => exact .ok ⟨trivial, .nil, Nat.lt_succ_self _⟩
    | @cons t u ts us htu hrest =>
      simp only [moreOperands, ← isLogic_eq htu]
      split
      · have hlink := condition_outcome op.op hrest (ho hrest)
        apply (hlink.extend hshort (Nat.le_succ _)).bind
        intro x y hxy
        apply ((ih hxy.tokens).mono (hshort hxy.length_lt.le) fun _ _ h => h).bind
        intro later later' hlater
        have hlt := hlater.length_lt.trans_le hxy.length_lt
        exact .ok ⟨⟨hxy.value, hlater.value⟩, hlater.tokens, hlt.trans (Nat.lt_succ_self _)⟩
      · exact .ok ⟨trivial, .cons htu hrest, Nat.lt_succ_self _⟩

theorem chain_parallel (hshort : Monotone short) (op : Junction)
    (ho : r.Parallel short (Rule.Alike r.Text) operand operand') :
    r.Parallel short (Rule.Alike r.Text) (chain r.first op operand)
      (chain r.second op operand') := by
  intro ts us h
  rw [chain_eq, chain_eq]
  apply (ho h).bind
  intro x y hfirst
  obtain ⟨first, rest⟩ := x
  obtain ⟨first', rest'⟩ := y
  have hvalue : first.Alike r.Text first' := hfirst.value
  have hlt : rest.length < ts.length := hfirst.length_lt
  have htokens : List.Forall₂ r.Match rest rest' := hfirst.tokens
  cases htokens with
  | nil => exact .ok hfirst
  | @cons t u after after' htu hafter =>
    simp only [← isLogic_eq htu, ← hvalue.isCondition_eq]
    split
    · split
      · have hle : after.length ≤ ts.length := ((Nat.lt_succ_self _).trans hlt).le
        apply ((condition_outcome op.op hafter (ho hafter)).extend hshort hle).bind
        intro second second' hsecond
        rw [← hafter.length_eq]
        apply ((moreOperands_outcome hshort op ho _ hsecond.tokens).mono
          (hshort hsecond.length_lt.le) fun _ _ h => h).bind
        intro more more' hmore
        exact .ok ⟨⟨rfl, hvalue, hsecond.value, hmore.value⟩, hmore.tokens,
          hmore.length_lt.trans_le hsecond.length_lt⟩
      · exact .fail_place h (Nat.zero_lt_of_lt hlt) (.noCondition op.op hvalue)
    · exact .ok hfirst

theorem expression_parallel (hshort : Monotone short)
    (hi : r.InnerParallel short inner inner') :
    r.Parallel short (Rule.Alike r.Text) (expression r.first inner)
      (expression r.second inner') := by
  have hterm := chain_parallel hshort .and (factor_parallel hshort hi)
  exact chain_parallel hshort .or hterm

/-! ## Nesting -/

/-- With one level more of nesting the readings still go the same way. The token that opens it makes
up for the level. -/
theorem innerAt_succ_parallel {room room' : Nat} (hshort : Monotone short)
    (hi : r.InnerParallel short (innerAt r.first room) (innerAt r.second room')) :
    r.InnerParallel (fun n => short (n - 1)) (innerAt r.first (room + 1))
      (innerAt r.second (room' + 1)) := by
  intro kind t u ts us _ _ h
  cases kind with
  | group => exact expression_parallel hshort hi h
  | negated => exact factor_parallel hshort hi h

/-- Under the same limit neither reading can nest too deep alone. -/
theorem innerAt_parallel (hdepth : r.first.maxDepth = r.second.maxDepth) (room : Nat) :
    r.InnerParallel (fun _ => False) (innerAt r.first room) (innerAt r.second room) := by
  induction room with
  | zero =>
    intro kind t u ts us htu hopens _
    exact .failed (.tooDeep htu hopens hdepth)
  | succ room ih => exact innerAt_succ_parallel monotone_const ih

/-- Under a smaller limit the first reading can, but only if there are more tokens than levels. -/
theorem innerAt_parallel_of_le {room room' : Nat} (hle : room ≤ room') :
    r.InnerParallel (fun n => room < n) (innerAt r.first room) (innerAt r.second room') := by
  induction room generalizing room' with
  | zero =>
    intro kind t u ts us htu hopens _
    exact .exceeded (Nat.succ_pos _) htu hopens
  | succ room ih =>
    obtain ⟨room', rfl⟩ := Nat.exists_eq_add_of_le' (Nat.le_of_add_left_le hle)
    have hmono : Monotone fun n => room < n := fun m n hmn hm => Nat.lt_of_lt_of_le hm hmn
    have hin := innerAt_succ_parallel hmono (ih (Nat.le_of_succ_le_succ hle))
    intro kind t u ts us htu hopens h
    apply (hin kind htu hopens h).mono ?_ fun _ _ h => h
    intro hlt
    exact Nat.succ_lt_succ hlt

/-! ## Entries -/

section Entries

variable (hshort : Monotone short)
  (hi : r.InnerParallel short (innerAt r.first r.first.maxDepth)
    (innerAt r.second r.second.maxDepth))

include hshort hi

theorem threshold_parallel :
    r.Parallel short (Rule.Alike r.Text) (threshold r.first) (threshold r.second) := by
  intro ts us h
  apply (comparison_parallel hshort hi h).bind
  intro x y hxy
  obtain ⟨rule, rest⟩ := x
  obtain ⟨rule', rest'⟩ := y
  have hvalue : rule.Alike r.Text rule' := hxy.value
  have htokens : List.Forall₂ r.Match rest rest' := hxy.tokens
  have hpos : 0 < ts.length := Nat.zero_lt_of_lt hxy.length_lt
  cases rule <;> cases rule' <;> simp only [Rule.Alike] at hvalue
  case comparison.comparison => exact .ok hxy
  all_goals
    cases htokens with
    | nil => exact .fail_place h hpos (.noComparison hxy.value)
    | cons htu _ => exact .fail htu (.found .comparator htu)

theorem pattern_parallel :
    r.Parallel short (Rule.Alike r.Text) (pattern r.first) (pattern r.second) := by
  intro ts us h
  apply (atom_parallel hshort hi h).bind
  intro x y hleft
  obtain ⟨left, rest⟩ := x
  obtain ⟨left', rest'⟩ := y
  have hvalue : left.Alike r.Text left' := hleft.value
  have hpos : 0 < ts.length := Nat.zero_lt_of_lt hleft.length_lt
  cases left <;> cases left' <;> simp only [Rule.Alike] at hvalue
  case aggregate.aggregate =>
    apply ((comparator_parallel .comparatorAfterAggregate hleft.tokens).extend hshort
      hleft.length_lt.le).bind
    intro op op' hop
    apply ((atom_parallel hshort hi hop.tokens).mono (hshort hop.length_lt.le) fun _ _ h => h).bind
    intro x y hright
    obtain ⟨right, rest⟩ := x
    obtain ⟨right', rest'⟩ := y
    have hvalue : right.Alike r.Text right' := hright.value
    have hpos : 0 < op.2.length := Nat.zero_lt_of_lt hright.length_lt
    cases right <;> cases right' <;> simp only [Rule.Alike] at hvalue
    case literal.literal =>
      have hlt := hright.length_lt.trans hop.length_lt
      exact .ok ⟨⟨hop.value, hleft.value, hright.value⟩, hright.tokens, hlt⟩
    all_goals exact .fail_place hop.tokens hpos (.noLiteral hright.value)
  all_goals exact .fail_place h hpos (.noAggregate hleft.value)

theorem entry_parallel :
    r.Parallel short (Rule.Alike r.Text) (entry r.first) (entry r.second) := by
  intro ts us h
  simp only [entry, ← r.category]
  split
  · exact threshold_parallel hshort hi h
  · exact pattern_parallel hshort hi h
  · exact expression_parallel hshort hi h

theorem read_outcome {ts us : List Token} (h : List.Forall₂ r.Match ts us) :
    r.Outcome (short ts.length) (Rule.Alike r.Text) (read r.first ts) (read r.second us) := by
  apply (entry_parallel hshort hi h).bind
  intro x y hxy
  obtain ⟨rule, rest⟩ := x
  obtain ⟨rule', rest'⟩ := y
  have htokens : List.Forall₂ r.Match rest rest' := hxy.tokens
  cases htokens with
  | nil => exact .ok hxy.value
  | cons htu _ => exact .fail htu (.leftover htu)

end Entries

end Readers

end Twins

end Grammar

end Screening
