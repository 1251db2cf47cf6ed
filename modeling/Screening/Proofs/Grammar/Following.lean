import Screening.Proofs.Grammar.Machine

/-!
# Routines that follow productions

A routine of the machine follows a production at a cursor if it ends as the production does on the
tokens from there on: with the same result or error, with the cursor at the tokens that are left,
and with the count restored. It must do so with any number of steps above a bound. And it must not
have looked further than one token ahead, so on every input that agrees up to that token it ends in
the same way.

There is one rule for each thing a routine does, and a sequence follows if its steps do.
-/

namespace Screening.Grammar

section Drop

variable {α : Type} {ts rest : List α} {t : α} {n : Nat}

theorem drop_succ_of_drop (h : ts.drop n = t :: rest) : ts.drop (n + 1) = rest := by
  rw [← List.tail_drop, h, List.tail_cons]

theorem lt_length_of_drop (h : ts.drop n = t :: rest) : n < ts.length := by
  refine Nat.lt_of_not_le fun hle => ?_
  rw [List.drop_eq_nil_of_le hle] at h
  cases h

end Drop

variable {input : Input} {bound : Nat} {c : Cursor}

/-- The inputs have the same tokens at the indices from `first` to `last`, or both have none there,
and they allow the same nesting. -/
structure Input.Agrees (input other : Input) (first last : Nat) : Prop where
  maxDepth : other.maxDepth = input.maxDepth
  tokens : ∀ i, first ≤ i → i ≤ last → other.tokens[i]? = input.tokens[i]?

theorem Input.Agrees.refl (input : Input) (first last : Nat) : input.Agrees input first last :=
  ⟨rfl, fun _ _ _ => rfl⟩

theorem Input.Agrees.narrow {other : Input} {first last first' last' : Nat}
    (h : input.Agrees other first last) (hf : first ≤ first') (hl : last' ≤ last) :
    input.Agrees other first' last' :=
  ⟨h.maxDepth, fun i hi hi' => h.tokens i (Nat.le_trans hf hi) (Nat.le_trans hi' hl)⟩

/-- Started at the cursor with more than `bound` steps the routine ends with `result`, which comes
with the tokens that a production left. -/
def Follows {α : Type} (input : Input) (bound : Nat) (m : Nat → Input → Machine α) (c : Cursor)
    (result : Except SyntaxError (Parsed α)) : Prop :=
  ∃ n, c.position ≤ n ∧ n ≤ max c.position input.tokens.length ∧
    match result with
    | .ok (a, rest) => rest = input.tokens.drop n ∧
      ∀ steps, bound < steps → ∀ other, input.Agrees other c.position n →
        (m steps other).runFrom c = some (.ok a, ⟨n, c.depth⟩)
    | .error e => ∀ steps, bound < steps →
        (m steps input).runFrom c = some (.error e, ⟨n, c.depth⟩)

namespace Follows

variable {α β : Type} {x : Except SyntaxError (Parsed α)}

/-! ## Sequences -/

theorem pure (a : α) :
    Follows input bound (fun _ _ => Pure.pure a) c (.ok (a, input.tokens.drop c.position)) :=
  ⟨c.position, Nat.le_refl _, Nat.le_max_left _ _, rfl, fun _ _ _ _ => rfl⟩

theorem fail (fault : SyntaxFault) (position : Nat) :
    Follows input bound (fun _ i => (Machine.fail i fault position : Machine α)) c
      (Grammar.fail input.toSetting fault position) :=
  ⟨c.position, Nat.le_refl _, Nat.le_max_left _ _, fun _ _ => rfl⟩

theorem bind {m : Nat → Input → Machine α} {f : Nat → Input → α → Machine β}
    {g : Parsed α → Except SyntaxError (Parsed β)} (hm : Follows input bound m c x)
    (hf : ∀ a n, c.position ≤ n →
      Follows input bound (fun k i => f k i a) ⟨n, c.depth⟩ (g (a, input.tokens.drop n))) :
    Follows input bound (fun k i => m k i >>= f k i) c (x >>= g) := by
  obtain ⟨n, hn, hle, hm⟩ := hm
  cases x with
  | error e => exact ⟨n, hn, hle, fun k hk => Machine.runFrom_bind_error (hm k hk)⟩
  | ok p =>
    obtain ⟨a, rest⟩ := p
    obtain ⟨rfl, hrun⟩ := hm
    obtain ⟨n', hn', hle', hnext⟩ := hf a n hn
    simp only at hn' hle'
    refine ⟨n', Nat.le_trans hn hn', by omega, ?_⟩
    rw [ok_bind]
    cases hg : g (a, input.tokens.drop n) with
    | error e =>
      rw [hg] at hnext
      exact fun k hk =>
        (Machine.runFrom_bind_ok (hrun k hk input (.refl ..))).trans (hnext k hk)
    | ok q =>
      rw [hg] at hnext
      obtain ⟨hrest, hrun'⟩ := hnext
      -- the first step looked no further than the token at which the second one starts
      exact ⟨hrest, fun k hk other ho =>
        (Machine.runFrom_bind_ok (hrun k hk other (ho.narrow (Nat.le_refl _) hn'))).trans
          (hrun' k hk other (ho.narrow hn (Nat.le_refl _)))⟩

/-- What a routine does may depend on the token at the cursor, and on there being steps enough. -/
theorem congr {m m' : Nat → Input → Machine α}
    (h : ∀ k, bound < k → ∀ other, input.Agrees other c.position c.position →
      (m k other).runFrom c = (m' k other).runFrom c) (hm : Follows input bound m' c x) :
    Follows input bound m c x := by
  obtain ⟨n, hn, hle, hm⟩ := hm
  refine ⟨n, hn, hle, ?_⟩
  cases x with
  | error e => exact fun k hk => (h k hk input (.refl ..)).trans (hm k hk)
  | ok p =>
    exact ⟨hm.1, fun k hk other ho =>
      (h k hk other (ho.narrow (Nat.le_refl _) hn)).trans (hm.2 k hk other ho)⟩

theorem of_eq {m m' : Nat → Input → Machine α} (h : ∀ k, bound < k → ∀ i, m k i = m' k i)
    (hm : Follows input bound m' c x) : Follows input bound m c x :=
  congr (fun k hk other _ => by rw [h k hk other]) hm

theorem ofExcept {y : Input → Except SyntaxError β} {f : Nat → Input → β → Machine α}
    {g : β → Except SyntaxError (Parsed α)} (hy : ∀ v other, y input = .ok v → y other = .ok v)
    (h : ∀ v, Follows input bound (fun k i => f k i v) c (g v)) :
    Follows input bound (fun k i => MonadExcept.ofExcept (y i) >>= f k i) c (y input >>= g) := by
  cases hv : y input with
  | error e =>
    refine ⟨c.position, Nat.le_refl _, Nat.le_max_left _ _, fun k _ => ?_⟩
    simp only [hv]
    rfl
  | ok v =>
    refine congr (fun k _ other _ => ?_) (h v)
    rw [hy v other hv]
    rfl

/-! ## Looking and advancing -/

theorem peek {f : Nat → Input → Option Token → Machine α}
    (h : Follows input bound (fun k i => f k i (input.tokens.drop c.position).head?) c x) :
    Follows input bound (fun k i => Machine.peek i >>= f k i) c x := by
  refine congr (fun k _ other ho => ?_) h
  rw [List.head?_drop, ← ho.tokens c.position (Nat.le_refl _) (Nat.le_refl _)]
  rfl

section Branches

variable {op : LogicOp} {m m' : Nat → Input → Machine α}

theorem at_logic (h : (input.tokens.drop c.position).head?.any (isLogic op) = true)
    (hm : Follows input bound m c x) :
    Follows input bound (fun k i => do if ← Machine.atLogic i op then m k i else m' k i) c x :=
  .peek (f := fun k i o => if o.any (isLogic op) = true then m k i else m' k i)
    (by simpa only [h, ↓reduceIte] using hm)

theorem not_at_logic (h : (input.tokens.drop c.position).head?.any (isLogic op) = false)
    (hm : Follows input bound m' c x) :
    Follows input bound (fun k i => do if ← Machine.atLogic i op then m k i else m' k i) c x :=
  .peek (f := fun k i o => if o.any (isLogic op) = true then m k i else m' k i)
    (by simpa only [h, Bool.false_eq_true, ↓reduceIte] using hm)

end Branches

/-- At the end of the tokens each input gives a place of its own, so the place that is passed on
depends on the input. -/
theorem place {f : Nat → Input → Nat → Machine α}
    (h : Follows input bound
      (fun k i => f k i (Grammar.place i.toSetting (i.tokens.drop c.position))) c x) :
    Follows input bound (fun k i => Machine.place i >>= f k i) c x := by
  refine congr (fun k _ other _ => ?_) h
  have hplace : Grammar.place other.toSetting (other.tokens.drop c.position) =
      other.tokens[c.position]?.elim other.finish Token.position := by
    rw [← List.head?_drop]
    cases other.tokens.drop c.position <;> rfl
  rw [hplace]
  rfl

variable {t : Token} {rest : List Token}

/-- In front of a token all inputs give the same place. -/
theorem place_cons {f : Nat → Input → Nat → Machine α}
    (ht : input.tokens.drop c.position = t :: rest)
    (h : Follows input bound (fun k i => f k i t.position) c x) :
    Follows input bound (fun k i => Machine.place i >>= f k i) c x := by
  refine congr (fun k _ other ho => ?_) h
  have hplace : other.tokens[c.position]?.elim other.finish Token.position = t.position := by
    rw [ho.tokens c.position (Nat.le_refl _) (Nat.le_refl _), ← List.head?_drop, ht]
    rfl
  rw [← hplace]
  rfl

theorem advance {m : Nat → Input → Machine α} (ht : input.tokens.drop c.position = t :: rest)
    (h : Follows input bound m ⟨c.position + 1, c.depth⟩ x) :
    Follows input bound (fun k i => do Machine.advance; m k i) c x := by
  have hlt := lt_length_of_drop ht
  obtain ⟨n, hn, hle, h⟩ := h
  simp only at hn hle
  refine ⟨n, by omega, by omega, ?_⟩
  cases x with
  | error e => exact h
  | ok p =>
    exact ⟨h.1, fun k hk other ho =>
      h.2 k hk other (ho.narrow (Nat.le_succ _) (Nat.le_refl _))⟩

/-! ## Nesting and steps -/

variable {opened : Nat} {m : Nat → Input → Machine Rule} {x : Except SyntaxError (Parsed Rule)}

theorem nested_of_le (h : input.maxDepth ≤ c.depth) :
    Follows input bound (fun k i => Machine.nested i opened (m k i)) c
      (.error ⟨input.category, some opened, .tooDeep input.maxDepth⟩) :=
  ⟨c.position, Nat.le_refl _, Nat.le_max_left _ _, fun _ _ => Machine.runFrom_nested_of_le h⟩

theorem nested (h : c.depth < input.maxDepth)
    (hm : Follows input bound m ⟨c.position, c.depth + 1⟩ x) :
    Follows input bound (fun k i => Machine.nested i opened (m k i)) c x := by
  obtain ⟨n, hn, hle, hm⟩ := hm
  refine ⟨n, hn, hle, ?_⟩
  cases x with
  | error e => exact fun k hk => Machine.runFrom_nested h (hm k hk)
  | ok p =>
    exact ⟨hm.1, fun k hk other ho =>
      Machine.runFrom_nested (ho.maxDepth ▸ h) (hm.2 k hk other ho)⟩

/-- With a step less to go, the bound is one higher. -/
theorem pred (hm : Follows input bound m c x) :
    Follows input (bound + 1) (fun k i => m (k - 1) i) c x := by
  obtain ⟨n, hn, hle, hm⟩ := hm
  refine ⟨n, hn, hle, ?_⟩
  cases x with
  | error e => exact fun k hk => hm (k - 1) (by omega)
  | ok p => exact ⟨hm.1, fun k hk => hm.2 (k - 1) (by omega)⟩

end Follows

end Screening.Grammar
