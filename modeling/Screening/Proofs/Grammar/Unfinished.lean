import Screening.Proofs.Compile.Position
import Screening.Proofs.Grammar.Completeness

/-!
# Unfinished expressions

A reading that ends too early has found nothing wrong: its tokens are the beginning of an expression.
What is missing follows from where the tokens end. It is an operand, the rest of an aggregate or a
parenthesis, and after that perhaps a comparison, since a logical operator takes nothing else. None of
it opens one more level of nesting.
-/

namespace Screening.Grammar

variable {s : Setting}

/-! ## Readings that end too early -/

/-- The reading failed where there were no more tokens. -/
def EndsEarly {α : Type} (result : Except SyntaxError α) : Prop :=
  ∃ e wanted, result = .error e ∧ e.fault = .unexpectedEnd wanted

section Results

variable {α β : Type}

@[simp] theorem not_endsEarly_ok (a : α) : ¬EndsEarly (.ok a) := by
  simp [EndsEarly]

@[simp] theorem not_endsEarly_pure (a : α) : ¬EndsEarly (pure a) := not_endsEarly_ok a

@[simp] theorem endsEarly_fail {fault : SyntaxFault} {position : Nat} :
    EndsEarly (fail s fault position : Except SyntaxError α) ↔
      ∃ wanted, fault = .unexpectedEnd wanted := by
  simp [EndsEarly, fail]

/-- A sequence ends too early in one of its two steps. -/
theorem endsEarly_bind {x : Except SyntaxError α} {f : α → Except SyntaxError β} :
    EndsEarly (x >>= f) ↔ EndsEarly x ∨ ∃ a, x = .ok a ∧ EndsEarly (f a) := by
  simp only [EndsEarly, bind_eq_error]
  constructor
  · rintro ⟨e, wanted, he | ⟨a, ha, he⟩, hfault⟩
    · exact .inl ⟨e, wanted, he, hfault⟩
    · exact .inr ⟨a, ha, e, wanted, he, hfault⟩
  · rintro (⟨e, wanted, he, hfault⟩ | ⟨a, ha, e, wanted, he, hfault⟩)
    · exact ⟨e, wanted, .inl he, hfault⟩
    · exact ⟨e, wanted, .inr ⟨a, ha, he⟩, hfault⟩

@[simp] theorem endsEarly_map {f : α → β} {x : Except SyntaxError α} :
    EndsEarly (f <$> x) ↔ EndsEarly x := by
  cases x <;> simp [EndsEarly, Functor.map, Except.map]

/-- The end of the tokens is what the error says. -/
theorem endsEarly_error {e : SyntaxError} :
    EndsEarly (.error e : Except SyntaxError α) ↔ e.SaysEnd := by
  simp [EndsEarly, SyntaxError.saysEnd_iff]

end Results

/-! ## Single tokens -/

theorem endsEarly_expect {kind wanted ts} : EndsEarly (expect s kind wanted ts) ↔ ts = [] := by
  cases ts with
  | nil => simp [expect]
  | cons t ts =>
    simp only [expect]
    split <;> simp

theorem endsEarly_comparator {wanted ts} : EndsEarly (comparator s wanted ts) ↔ ts = [] := by
  rw [comparator, endsEarly_bind, endsEarly_expect]
  refine or_iff_left ?_
  rintro ⟨⟨t, rest⟩, -, h⟩
  dsimp only at h
  split at h <;> simp at h

theorem not_endsEarly_fieldOf (t : Token) : ¬EndsEarly (fieldOf s t) := by
  simp only [fieldOf]
  split <;> simp

theorem not_endsEarly_numberOf (t : Token) : ¬EndsEarly (numberOf s t) := by
  simp only [numberOf]
  split
  · simp
  · split <;> simp

theorem endsEarly_argument {function ts} : EndsEarly (argument s function ts) ↔ ts = [] := by
  cases ts with
  | nil => simp [argument]
  | cons t ts =>
    simp only [argument]
    split <;> simp [not_endsEarly_fieldOf]

theorem endsEarly_condition {op operand ts} :
    EndsEarly (condition s op operand ts) ↔ EndsEarly (operand ts) := by
  rw [condition, endsEarly_bind]
  refine or_iff_left ?_
  rintro ⟨⟨rule, rest⟩, -, h⟩
  dsimp only at h
  split at h <;> simp at h

/-! ## What is missing -/

/-- Tokens to go on with. Where they stand does not matter. -/
def missing (kind : TokenKind) (text : String) : Token := ⟨kind, text, 0⟩

/-- An operand wherever one is wanted. -/
theorem derives_one (d : Nat) : Derives .atom d [missing .number "1"] (.literal (.int32 1)) :=
  .literal (.number rfl (by decide +kernel))

/-- An operand compared with another is a condition. -/
theorem Derives.compared {d ts rule} (h : Derives .atom d ts rule) :
    Derives .comparison d (ts ++ [missing .comparisonOp "=", missing .number "1"])
      (.comparison .equal rule (.literal (.int32 1))) :=
  .compare h ⟨rfl, by decide⟩ (derives_one d)

/-- An aggregate can be completed behind every one of its tokens. -/
theorem aggregate_completes {t : Token} (hk : t.kind = .aggregateFunction) {ts d}
    (h : EndsEarly (aggregate s t ts)) : ∃ us rule, Derives .atom d (t :: (ts ++ us)) rule := by
  have hstar : Argues (missing .wildcard "*") .wildcard := .wildcard rfl
  have hclose : (missing .rparen ")").kind = .rparen := rfl
  simp only [aggregate] at h
  split at h
  · simp at h
  · next function hfunction =>
    have hname : t.text = function.name := (Named.name_of_find? hfunction).symm
    -- the tokens end behind the name, behind the parenthesis or behind the argument
    rw [endsEarly_bind] at h
    rcases h with h | ⟨⟨opening, us⟩, hopening, h⟩
    · obtain rfl := endsEarly_expect.1 h
      exact ⟨[missing .lparen "(", _, _], _, .aggregate hk hname rfl hstar hclose⟩
    obtain ⟨rfl, ho⟩ := expect_eq_ok.1 hopening
    rw [endsEarly_bind] at h
    rcases h with h | ⟨⟨operand, vs⟩, harg, h⟩
    · obtain rfl := endsEarly_argument.1 h
      exact ⟨[_, _], _, .aggregate hk hname ho hstar hclose⟩
    obtain ⟨arg, rfl, ha⟩ := argument_eq_ok.1 harg
    rw [endsEarly_bind] at h
    rcases h with h | ⟨_, _, h⟩
    · obtain rfl := endsEarly_expect.1 h
      exact ⟨[_], _, .aggregate hk hname ho ha hclose⟩
    · simp at h

/-! ## Productions -/

/-- Behind tokens that the reader ends too early on there can be more, so that the symbol derives them
all within the budget, as a rule that `P` holds of. -/
def Completes (reader : Production) (symbol : Symbol) (budget : Nat) (P : Rule → Prop) : Prop :=
  ∀ ⦃ts⦄, EndsEarly (reader ts) → ∃ us rule, Derives symbol budget (ts ++ us) rule ∧ P rule

/-- What stands inside can be completed to a condition, with one less of the budget. -/
def InnerCompletes (inner : InnerReader) (budget : Nat) : Prop :=
  ∀ ⦃kind opened ts⦄, EndsEarly (inner kind opened ts) →
    ∃ d, budget = d + 1 ∧ ∃ us rule, Derives kind.symbol d (ts ++ us) rule ∧
      rule.isCondition = true

/-- The rule compares two others. -/
def IsComparison (rule : Rule) : Prop := ∃ op left right, rule = .comparison op left right

theorem IsComparison.isCondition {rule : Rule} (h : IsComparison rule) :
    rule.isCondition = true := by
  obtain ⟨op, left, right, rfl⟩ := h
  rfl

section Productions

variable {inner : InnerReader} {budget : Nat}

theorem atom_completes (hi : InnerSound inner budget) (hc : InnerCompletes inner budget) :
    Completes (atom s inner) .atom budget fun _ => True := by
  intro ts h
  cases ts with
  | nil => exact ⟨_, _, derives_one budget, trivial⟩
  | cons t rest =>
    simp only [atom] at h
    -- only an aggregate and a group go on behind their first token
    split at h
    · simp [not_endsEarly_numberOf] at h
    · split at h <;> simp at h
    · simp at h
    · simp [not_endsEarly_fieldOf] at h
    · simp at h
    · next hk =>
      obtain ⟨us, rule, hd⟩ := aggregate_completes hk h
      exact ⟨us, rule, hd, trivial⟩
    · next hk =>
      have hclose : (missing .rparen ")").kind = .rparen := rfl
      rw [endsEarly_bind] at h
      rcases h with h | ⟨⟨rule, rest'⟩, hin, h⟩
      · obtain ⟨d, rfl, us, rule, hd, -⟩ := hc h
        have hgroup := Derives.group hk hd hclose
        rw [List.append_assoc] at hgroup
        exact ⟨_, rule, hgroup, trivial⟩
      · obtain ⟨d, rfl, taken, rfl, hd⟩ := hi hin
        rw [endsEarly_bind] at h
        rcases h with h | ⟨_, _, h⟩
        · obtain rfl := endsEarly_expect.1 h
          rw [List.append_nil]
          exact ⟨_, rule, .group hk hd hclose, trivial⟩
        · simp at h
    · simp at h
    · simp at h
    · simp at h
    · simp at h

theorem comparison_completes (hi : InnerSound inner budget) (hc : InnerCompletes inner budget) :
    Completes (comparison s inner) .comparison budget IsComparison := by
  intro ts h
  rw [comparison, endsEarly_bind] at h
  rcases h with h | ⟨⟨left, rest⟩, hl, h⟩
  · -- an operator may be waiting for a condition, so the operand is compared once it is complete
    obtain ⟨us, rule, hd, -⟩ := atom_completes hi hc h
    have hcompared := hd.compared
    rw [List.append_assoc] at hcompared
    exact ⟨_, _, hcompared, _, _, _, rfl⟩
  obtain ⟨ls, rfl, hleft⟩ := atom_sound hi hl
  simp only at h
  split at h
  · next hhead =>
    rw [endsEarly_bind] at h
    rcases h with h | ⟨⟨op, rest'⟩, hop, h⟩
    · obtain rfl := endsEarly_comparator.1 h
      cases hhead
    obtain ⟨t, rfl, ht⟩ := comparator_eq_ok.1 hop
    rw [endsEarly_bind] at h
    rcases h with h | ⟨_, _, h⟩
    · obtain ⟨us, right, hright, -⟩ := atom_completes hi hc h
      refine ⟨us, _, ?_, op, left, right, rfl⟩
      rw [List.append_assoc, List.cons_append]
      exact .compare hleft ht hright
    · simp at h
  · simp at h

theorem factor_completes (hi : InnerSound inner budget) (hc : InnerCompletes inner budget) :
    Completes (factor s inner) .factor budget (·.isCondition = true) := by
  have hplain : ∀ {ts}, EndsEarly (comparison s inner ts) →
      ∃ us rule, Derives .factor budget (ts ++ us) rule ∧ rule.isCondition = true := by
    intro ts h
    obtain ⟨us, rule, hd, hrule⟩ := comparison_completes hi hc h
    exact ⟨us, rule, .plain hd, hrule.isCondition⟩
  intro ts h
  cases ts with
  | nil => exact hplain h
  | cons t rest =>
    simp only [factor] at h
    split at h
    · next hnot =>
      rw [endsEarly_bind] at h
      rcases h with h | ⟨_, _, h⟩
      · obtain ⟨d, rfl, us, rule, hd, hrule⟩ := hc (endsEarly_condition.1 h)
        exact ⟨us, _, .negation hnot hd hrule, rfl⟩
      · simp at h
    · exact hplain h

/-- A further operand of a chain is derived and is a condition. -/
structure Link.Derived (op : Junction) (d : Nat) (link : Link) : Prop where
  joint : isLogic op.op link.joint = true
  derives : Derives (operandOf op) d link.tokens link.rule
  isCondition : link.rule.isCondition = true

section Chains

variable {op : Junction} {operand : Production}
  (ho : Sound operand (operandOf op) budget)
  (hc : Completes operand (operandOf op) budget (·.isCondition = true))

include ho hc

/-- An operator and what follows it, where that ends too early. The condition behind the operator is
completed, or else what follows the condition. -/
theorem links_complete {α : Type} {more : Parsed Rule → Except SyntaxError α} {t : Token}
    {after : List Token} (hj : isLogic op.op t = true)
    (hmore : ∀ rule rest, EndsEarly (more (rule, rest)) → ∃ us, ∃ links : List Link,
      rest ++ us = links.flatMap Link.span ∧ ∀ link ∈ links, link.Derived op budget)
    (h : EndsEarly (condition s op.op operand after >>= more)) :
    ∃ us link, ∃ links : List Link, t :: (after ++ us) = (link :: links).flatMap Link.span ∧
      ∀ l ∈ link :: links, l.Derived op budget := by
  rw [endsEarly_bind] at h
  rcases h with h | ⟨⟨rule, rest⟩, hr, h⟩
  · obtain ⟨us, rule, hd, hrule⟩ := hc (endsEarly_condition.1 h)
    refine ⟨us, ⟨t, after ++ us, rule⟩, [], by simp [Link.span], ?_⟩
    exact List.forall_mem_singleton.2 ⟨hj, hd, hrule⟩
  · obtain ⟨hr, hrule⟩ := condition_eq_ok.1 hr
    obtain ⟨taken, rfl, hd⟩ := ho hr
    obtain ⟨us, links, hspan, hlinks⟩ := hmore rule rest h
    refine ⟨us, ⟨t, taken, rule⟩, links, by simp [Link.span, hspan], ?_⟩
    exact List.forall_mem_cons.2 ⟨⟨hj, hd, hrule⟩, hlinks⟩

theorem moreOperands_completes {steps : Nat} :
    ∀ {ts}, EndsEarly (moreOperands s op operand steps ts) → ∃ us, ∃ links : List Link,
      ts ++ us = links.flatMap Link.span ∧ ∀ link ∈ links, link.Derived op budget := by
  induction steps with
  | zero =>
    intro ts h
    simp [moreOperands] at h
  | succ steps ih =>
    intro ts h
    cases ts with
    | nil => simp [moreOperands] at h
    | cons t after =>
      simp only [moreOperands] at h
      split at h
      · next hj =>
        obtain ⟨us, link, links, hspan, hlinks⟩ :=
          links_complete ho hc hj (fun rule rest h => ih (endsEarly_map.1 h)) h
        exact ⟨us, link :: links, hspan, hlinks⟩
      · simp at h

theorem chain_completes :
    Completes (chain s op operand) (.chain op) budget (·.isCondition = true) := by
  intro ts h
  rw [chain_eq, endsEarly_bind] at h
  rcases h with h | ⟨⟨first, rest⟩, hf, h⟩
  · obtain ⟨us, rule, hd, hrule⟩ := hc h
    exact ⟨us, rule, .single hd, hrule⟩
  obtain ⟨taken, rfl, hfirst⟩ := ho hf
  cases rest with
  | nil => simp at h
  | cons t after =>
    simp only at h
    split at h
    · next hj =>
      -- the first operand is not completed any more, so it must be a condition already
      split at h
      · next hfc =>
        obtain ⟨us, link, links, hspan, hlinks⟩ := links_complete ho hc hj
          (fun rule rest h => moreOperands_completes ho hc (endsEarly_map.1 h)) h
        refine ⟨us, .junction op first link.rule (links.map Link.rule), ?_, rfl⟩
        rw [List.append_assoc, List.cons_append, hspan]
        exact .run hfirst hfc (fun l hl => (hlinks l hl).joint) (fun l hl => (hlinks l hl).derives)
          (fun l hl => (hlinks l hl).isCondition)
      · simp at h
    · simp at h

end Chains

theorem expression_completes (hi : InnerSound inner budget) (hc : InnerCompletes inner budget) :
    Completes (expression s inner) (.chain .or) budget (·.isCondition = true) := by
  have hterm : Completes (chain s .and (factor s inner)) (.chain .and) budget
      (·.isCondition = true) :=
    chain_completes (factor_sound hi) (factor_completes hi hc)
  exact chain_completes (chain_sound (factor_sound hi)) hterm

end Productions

/-! ## All rooms -/

theorem innerAt_completes (room : Nat) : InnerCompletes (innerAt s room) room := by
  induction room with
  | zero =>
    intro kind opened ts h
    simp [innerAt, EndsEarly] at h
  | succ room ih =>
    intro kind opened ts h
    refine ⟨room, rfl, ?_⟩
    cases kind with
    | group => exact expression_completes (innerAt_sound room) ih h
    | negated => exact factor_completes (innerAt_sound room) ih h

/-- What a category generates begins with all tokens that its entry ends too early on. -/
theorem exists_generates (hcategory : s.category ≠ .pattern) {ts : List Token}
    (h : EndsEarly (read s ts)) : ∃ us rule, Generates s.category s.maxDepth (ts ++ us) rule := by
  have hi : InnerSound (innerAt s s.maxDepth) s.maxDepth := innerAt_sound s.maxDepth
  have hc : InnerCompletes (innerAt s s.maxDepth) s.maxDepth := innerAt_completes s.maxDepth
  rw [read, endsEarly_bind] at h
  rcases h with h | ⟨⟨rule, rest⟩, -, h⟩
  · simp only [entry] at h
    split at h
    · next hthreshold =>
      rw [threshold, endsEarly_bind] at h
      rcases h with h | ⟨⟨rule, rest⟩, -, h⟩
      · obtain ⟨us, rule, hd, op, left, right, rfl⟩ := comparison_completes hi hc h
        rw [hthreshold]
        exact ⟨us, _, .threshold hd⟩
      · dsimp only at h
        split at h <;> simp at h
    · next hpattern => exact absurd hpattern hcategory
    · next hcomposite =>
      obtain ⟨us, rule, hd, -⟩ := expression_completes hi hc h
      rw [hcomposite]
      exact ⟨us, rule, .composite hd⟩
  · dsimp only at h
    split at h <;> simp at h

/-- A reading ends too early only on tokens that an expression begins with. There are tokens to add
behind them with which they are read, in the same category and under the same limit on nesting,
wherever the end is said to be. Pattern rules are left out: behind `(AMOUNT > 1 OR` nothing makes the
group an aggregate. -/
theorem exists_read_append (s : Setting) (ts : List Token) (e : SyntaxError)
    (hcategory : s.category ≠ .pattern) (h : read s ts = .error e) (hend : e.SaysEnd) :
    ∃ us rule, ∀ finish, read { s with finish := finish } (ts ++ us) = .ok rule := by
  have hearly : EndsEarly (read s ts) := by
    rw [h]
    exact endsEarly_error.2 hend
  obtain ⟨us, rule, hg⟩ := exists_generates hcategory hearly
  exact ⟨us, rule, fun finish => (read_eq_ok_iff { s with finish := finish } _ _).2 hg⟩

/-- A group within a negation within another group, as deep as the limit allows, and in it a function
without its argument. -/
theorem exists_read_append_nested :
    ∃ ts e, Token.scan "TIME = night OR (NOT (AMOUNT = 1 AND SUM(" = .ok ts ∧
      read ⟨.composite, 3, 0⟩ ts = .error e ∧ e.SaysEnd ∧
      ∃ us rule, ∀ finish, read ⟨.composite, 3, finish⟩ (ts ++ us) = .ok rule := by
  let ts : List Token := [⟨.field, "TIME", 0⟩, ⟨.comparisonOp, "=", 5⟩, ⟨.identifier, "NIGHT", 7⟩,
    ⟨.logicOp, "OR", 13⟩, ⟨.lparen, "(", 16⟩, ⟨.logicOp, "NOT", 17⟩, ⟨.lparen, "(", 21⟩,
    ⟨.field, "AMOUNT", 22⟩, ⟨.comparisonOp, "=", 29⟩, ⟨.number, "1", 31⟩, ⟨.logicOp, "AND", 33⟩,
    ⟨.aggregateFunction, "SUM", 37⟩, ⟨.lparen, "(", 40⟩]
  have hscan : Token.scan "TIME = night OR (NOT (AMOUNT = 1 AND SUM(" = .ok ts := by
    decide +kernel
  have hread : read ⟨.composite, 3, 0⟩ ts = .error ⟨.composite, some 0, .unexpectedEnd .argument⟩ :=
    rfl
  have hend : SyntaxError.SaysEnd ⟨.composite, some 0, .unexpectedEnd .argument⟩ :=
    SyntaxError.saysEnd_iff.2 ⟨.argument, rfl⟩
  exact ⟨ts, _, hscan, hread, hend,
    exists_read_append ⟨.composite, 3, 0⟩ ts _ Category.noConfusion hread hend⟩

end Screening.Grammar
