import Screening.Proofs.Grammar.Derivation

/-!
# Readers of a few tokens

When the readers below the level of productions succeed: a comparator, a field, an argument, an
aggregate, a literal. Each law is an equivalence, so it serves both directions of the grammar's
correctness. Of a chain, what its loop does at first.
-/

namespace Screening

/-- A sequence succeeds exactly if both of its steps do. -/
theorem bind_eq_ok {ε α β : Type} {x : Except ε α} {f : α → Except ε β} {b : β} :
    x >>= f = .ok b ↔ ∃ a, x = .ok a ∧ f a = .ok b := by
  cases x with
  | error e => simp [Bind.bind, Except.bind]
  | ok a => simp [Bind.bind, Except.bind]

theorem mapError_eq_ok {ε ε' α : Type} {f : ε → ε'} {result : Except ε α} {a : α} :
    result.mapError f = .ok a ↔ result = .ok a := by
  cases result with
  | error e => exact ⟨nofun, nofun⟩
  | ok b =>
    constructor <;>
    · intro h
      obtain rfl : b = a := Except.ok.inj h
      rfl

@[simp] theorem ok_bind {ε α β : Type} (a : α) (f : α → Except ε β) :
    (Except.ok a >>= f) = f a := rfl

namespace Grammar

variable {s : Setting}

@[simp] theorem fail_ne_ok {α : Type} {fault : SyntaxFault} {position : Nat} {a : α} :
    fail s fault position ≠ .ok a := by
  simp [fail]

/-! ## Single tokens -/

theorem expect_eq_ok {kind wanted ts t rest} :
    expect s kind wanted ts = .ok (t, rest) ↔ ts = t :: rest ∧ t.kind = kind := by
  cases ts with
  | nil => simp [expect]
  | cons u us =>
    simp only [expect]
    split
    · simp only [Except.ok.injEq, Prod.mk.injEq, List.cons.injEq]
      constructor
      · intro hx
        obtain ⟨rfl, rfl⟩ := hx
        exact ⟨⟨rfl, rfl⟩, ‹_›⟩
      · intro hx
        obtain ⟨h, -⟩ := hx
        exact h
    · simp only [fail_ne_ok, false_iff, List.cons.injEq, not_and, and_imp]
      rintro rfl -
      assumption

theorem comparator_eq_ok {wanted ts op rest} :
    comparator s wanted ts = .ok (op, rest) ↔ ∃ t, ts = t :: rest ∧ Compares t op := by
  simp only [comparator, bind_eq_ok, Prod.exists, expect_eq_ok]
  constructor
  · intro hx
    obtain ⟨t, us, ⟨rfl, hk⟩, h⟩ := hx
    cases ho : Comparator.ofSymbol? t.text with
    | none => simp [ho] at h
    | some op' =>
      simp only [ho, Except.ok.injEq, Prod.mk.injEq] at h
      obtain ⟨rfl, rfl⟩ := h
      exact ⟨t, rfl, hk, ho⟩
  · intro hx
    obtain ⟨t, rfl, hk, ho⟩ := hx
    exact ⟨t, rest, ⟨rfl, hk⟩, by simp [ho]⟩

theorem fieldOf_eq_ok {t name} : fieldOf s t = .ok name ↔ t.text = name.name := by
  simp only [fieldOf]
  cases h : (Named.find? t.text : Option Field) with
  | none =>
    simp only [fail_ne_ok, false_iff]
    intro ht
    have := Named.find?_name name
    rw [show Named.name name = t.text from ht.symm, h] at this
    cases this
  | some name' =>
    have ht : name'.name = t.text := Named.name_of_find? h
    simp only [Except.ok.injEq]
    constructor
    · rintro rfl
      exact ht.symm
    · intro hname
      exact Named.name_injective name' name (ht.trans hname)

/-! ## Aggregates -/

theorem argument_eq_ok {function ts operand rest} :
    argument s function ts = .ok (operand, rest) ↔ ∃ t, ts = t :: rest ∧ Argues t operand := by
  cases ts with
  | nil => simp [argument]
  | cons t us =>
    simp only [argument]
    constructor
    · intro h
      split at h
      · next hk =>
        obtain ⟨name, hn, h⟩ := bind_eq_ok.1 h
        cases h
        exact ⟨t, rfl, .field hk (fieldOf_eq_ok.1 hn)⟩
      · next hk =>
        cases h
        exact ⟨t, rfl, .wildcard hk⟩
      · simp at h
    · intro hx
      obtain ⟨u, h, ha⟩ := hx
      obtain ⟨rfl, rfl⟩ := List.cons.inj h
      cases ha with
      | field hk ht =>
        simp only [hk, fieldOf_eq_ok.2 ht, ok_bind]
        rfl
      | wildcard hk => simp [hk]

theorem aggregate_eq_ok {t ts rule rest} :
    aggregate s t ts = .ok (rule, rest) ↔
      ∃ opening arg closing function operand, ts = opening :: arg :: closing :: rest ∧
        t.text = AggregateFunction.name function ∧ opening.kind = .lparen ∧
        Argues arg operand ∧ closing.kind = .rparen ∧ rule = .aggregate ⟨function, operand⟩ := by
  constructor
  · intro h
    simp only [aggregate] at h
    split at h
    · simp at h
    · next function hf =>
      obtain ⟨⟨opening, us⟩, ho, h⟩ := bind_eq_ok.1 h
      obtain ⟨⟨operand, vs⟩, ha, h⟩ := bind_eq_ok.1 h
      obtain ⟨⟨closing, ws⟩, hc, h⟩ := bind_eq_ok.1 h
      cases h
      obtain ⟨rfl, hopening⟩ := expect_eq_ok.1 ho
      obtain ⟨arg, rfl, harg⟩ := argument_eq_ok.1 ha
      obtain ⟨rfl, hclosing⟩ := expect_eq_ok.1 hc
      exact ⟨opening, arg, closing, function, operand, rfl, (Named.name_of_find? hf).symm,
        hopening, harg, hclosing, rfl⟩
  · intro hx
    obtain ⟨opening, arg, closing, function, operand, rfl, hf, ho, ha, hc, rfl⟩ := hx
    have hfind : Named.find? t.text = some function := Named.find?_eq_some_iff.2 hf.symm
    simp only [aggregate, hfind, expect_eq_ok.2 ⟨rfl, ho⟩, argument_eq_ok.2 ⟨arg, rfl, ha⟩,
      expect_eq_ok.2 ⟨rfl, hc⟩, ok_bind]
    rfl

/-! ## Literals -/

theorem between?_eq_some {quote cs body} :
    between? quote cs = some body ↔ cs = quote :: (body ++ [quote]) := by
  cases cs with
  | nil => simp [between?]
  | cons c rest =>
    simp only [between?, List.cons.injEq]
    constructor
    · intro h
      split at h
      · next hc =>
        cases h
        have hne : rest ≠ [] := by rintro rfl; simp at hc
        refine ⟨hc.1, ?_⟩
        have hlast : rest.getLast hne = quote := by
          simpa [List.getLast?_eq_some_getLast hne] using hc.2
        rw [← hlast, List.dropLast_concat_getLast]
      · cases h
    · intro hx
      obtain ⟨rfl, rfl⟩ := hx
      simp

theorem unquote?_eq_some {text body : String} :
    unquote? text = some body ↔
      ∃ quote, Lexeme.isQuote quote = true ∧ text.toList = quote :: (body.toList ++ [quote]) := by
  have hquote : ∀ c, Lexeme.isQuote c = true ↔ c = '\x27' ∨ c = '"' := by simp [Lexeme.isQuote]
  simp only [unquote?, Option.map_eq_some_iff, Option.orElse_eq_orElse, Option.orElse_eq_or,
    Option.or_eq_some_iff, between?_eq_some]
  constructor
  · intro hx
    rcases hx with ⟨cs, h | ⟨-, h⟩, rfl⟩
    · exact ⟨'\x27', by decide, by simpa using h⟩
    · exact ⟨'"', by decide, by simpa using h⟩
  · intro hx
    obtain ⟨quote, hq, h⟩ := hx
    refine ⟨body.toList, ?_, by simp⟩
    rcases (hquote quote).1 hq with rfl | rfl
    · exact .inl h
    · refine .inr ⟨?_, h⟩
      rw [h]
      simp [between?]

/-- What is taken out of quotes is what was put in them. -/
theorem unquote?_quoted {text : String} {quote : Char} {body : List Char}
    (hq : Lexeme.isQuote quote = true) (h : text.toList = quote :: (body ++ [quote])) :
    unquote? text = some (String.ofList body) :=
  unquote?_eq_some.2 ⟨quote, hq, by rwa [String.toList_ofList]⟩

/-- Whatever a token denotes, an atom reads off it. -/
theorem atom_of_denotes {inner : InnerReader} {t v} (h : Denotes t v) (rest : List Token) :
    atom s inner (t :: rest) = .ok (.literal v, rest) := by
  cases h with
  | number hk hv =>
    simp only [atom, hk, numberOf, hv, ok_bind]
    rfl
  | @string quote body hk hq ht =>
    simp [atom, hk, unquote?_quoted hq ht]
  | bool hk => simp [atom, hk]
  | word hk => simp [atom, hk]

/-! ## Chains -/

theorem moreOperands_of_isLogic {op : Junction} {operand : Production} {steps : Nat} {t : Token}
    {ts : List Token} (ht : isLogic op.op t = true) :
    moreOperands s op operand (steps + 1) (t :: ts) = do
      let (rule, rest) ← condition s op.op operand ts
      let (rules, rest) ← moreOperands s op operand steps rest
      return (rule :: rules, rest) := by
  rw [moreOperands, if_pos ht]

/-- The first round of a chain written out: the operator is known to be there. -/
theorem chain_eq (op : Junction) (operand : Production) (ts : List Token) :
    chain s op operand ts = do
      let (first, rest) ← operand ts
      match rest with
      | [] => return (first, [])
      | t :: after =>
        if isLogic op.op t then
          if first.isCondition then
            let (second, rest) ← condition s op.op operand after
            let (more, rest) ← moreOperands s op operand after.length rest
            return (.junction op first second more, rest)
          else fail s (.noCondition op.op first) (place s ts)
        else return (first, t :: after) := by
  unfold chain
  congr 1
  funext x
  obtain ⟨first, rest⟩ := x
  cases rest with
  | nil => rfl
  | cons t after =>
    dsimp only
    by_cases ht : isLogic op.op t = true
    · rw [dif_pos ht, if_pos ht]
      cases first.isCondition with
      | false => rfl
      | true =>
        rw [if_pos rfl, if_pos rfl]
        split
        · next more rest h =>
          rw [moreOperands_of_isLogic ht] at h
          obtain ⟨⟨second, us⟩, hsecond, h⟩ := bind_eq_ok.1 h
          obtain ⟨⟨later, vs⟩, hlater, h⟩ := bind_eq_ok.1 h
          cases h
          rw [hsecond, ok_bind]
          dsimp only
          rw [hlater]
          rfl
        · next e h =>
          rw [moreOperands_of_isLogic ht] at h
          cases hsecond : condition s op.op operand after with
          | error e' =>
            rw [hsecond] at h
            cases h
            rfl
          | ok x =>
            rw [hsecond, ok_bind] at h
            rw [ok_bind]
            dsimp only at h ⊢
            cases hlater : moreOperands s op operand after.length x.2 with
            | error e' =>
              rw [hlater] at h
              cases h
              rfl
            | ok y =>
              rw [hlater] at h
              cases h
    · rw [dif_neg ht, if_neg ht]

end Grammar

end Screening
