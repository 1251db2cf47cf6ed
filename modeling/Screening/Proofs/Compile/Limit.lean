import Screening.Proofs.Compile.Stages
import Screening.Proofs.Grammar.Twins
import Screening.Proofs.Rule.Equality

/-!
# The limit on nesting

A limit on nesting has no other effect than its own error. Under a smaller limit a text has the same
outcome as under a greater one, whether that is a rule or an error, or it is refused at a parenthesis
or a negation for nesting too deep.
-/

namespace Screening

/-! ## Equal causes -/

/-- Faults that tell one cause of the same tokens and the same rules are equal. -/
theorem SyntaxFault.Alike.eq {T : Token → Token → Prop} {f g : SyntaxFault}
    (h : f.Alike T (· = ·) g) (hT : ∀ t u, T t u → t = u) : f = g := by
  rw [← f.mapToken_id, ← g.mapToken_id]
  exact h.mapToken_eq (fun t u htu => congrArg Token.text (hT t u htu)) hT

/-- No such fault is about the limit. -/
theorem SyntaxFault.Alike.ne_tooDeep {T : Token → Token → Prop} {S : String → String → Prop}
    {f g : SyntaxFault} (h : f.Alike T S g) (limit : Nat) : f ≠ .tooDeep limit := by
  cases h <;> exact SyntaxFault.noConfusion

namespace Grammar

/-! ## Two limits -/

section

variable (category : Category) (finish : Nat) (ts : List Token) (d d' : Nat)

/-- The same tokens read under two limits. -/
def limits : Twins where
  first := ⟨category, d, finish⟩
  second := ⟨category, d', finish⟩
  Match t u := t = u ∧ t ∈ ts
  Text := (· = ·)
  category := rfl
  kind h := congrArg Token.kind h.1
  text h _ := congrArg Token.text h.1
  body h _ := by
    rw [h.1]
    cases unquote? _ with
    | none => exact .none
    | some body => exact .some rfl
  refl _ := rfl

variable {d d'}

theorem limits_outcome (h : d ≤ d') :
    (limits category finish ts d d').Outcome (d < ts.length) (Rule.Alike (· = ·))
      (read ⟨category, d, finish⟩ ts) (read ⟨category, d', finish⟩ ts) := by
  have hmono : Monotone fun n => d < n := fun m n hmn hm => Nat.lt_of_lt_of_le hm hmn
  have hsame : List.Forall₂ (limits category finish ts d d').Match ts ts :=
    List.forall₂_same.2 fun t ht => ⟨rfl, ht⟩
  exact Twins.read_outcome hmono (Twins.innerAt_parallel_of_le h) hsame

/-- Both limits lead to the same outcome, or the smaller one is exceeded where a token opens one
level more. -/
theorem read_maxDepth (h : d ≤ d') :
    read ⟨category, d, finish⟩ ts = read ⟨category, d', finish⟩ ts ∨
      ∃ t ∈ ts, Opens t ∧
        read ⟨category, d, finish⟩ ts = .error ⟨category, some t.position, .tooDeep d⟩ := by
  have hout := limits_outcome category finish ts h
  generalize read ⟨category, d, finish⟩ ts = x at hout ⊢
  generalize read ⟨category, d', finish⟩ ts = y at hout ⊢
  cases hout with
  | ok hab =>
    left
    rw [Rule.alike_eq_iff.1 hab]
  | failed he =>
    left
    cases he with
    | token htu hf =>
      rw [htu.1, hf.eq fun t u htu => htu.1]
      rfl
    | finish wanted => rfl
    | tooDeep htu hopens hdepth =>
      rw [htu.1, hdepth]
      rfl
  | @exceeded t _ _ _ htu hopens =>
    right
    exact ⟨t, htu.2, hopens, rfl⟩

/-- With a level for every token the limit is never exceeded. -/
theorem read_ne_tooDeep (h : ts.length ≤ d) {e : SyntaxError}
    (he : read ⟨category, d, finish⟩ ts = .error e) (limit : Nat) : e.fault ≠ .tooDeep limit := by
  -- under the next limit the reading would fail in the same way, but tell the other limit
  have hout := limits_outcome category finish ts (Nat.le_succ d)
  rw [he] at hout
  generalize read ⟨category, d + 1, finish⟩ ts = y at hout
  cases hout with
  | failed he =>
    cases he with
    | token _ hf => exact hf.ne_tooDeep limit
    | finish wanted => exact SyntaxFault.noConfusion
    | tooDeep _ _ hdepth => exact absurd hdepth (Nat.succ_ne_self d).symm
  | exceeded hlt => exact absurd hlt (Nat.not_lt.2 h)

end

end Grammar

/-! ## Compiling under two limits -/

open Grammar

/-- What comes before the reading is the same under every limit. -/
theorem admitted_maxDepth (options : CompileOptions) (text : String) (category : Category)
    (d : Nat) :
    admitted { options with maxDepth := d } text category = admitted options text category := rfl

/-- A limit on nesting only ever adds its own error: under a smaller limit the outcome is that under
a greater one, the same rule or the same error, or the smaller one is exceeded at a parenthesis or a
negation of the text. With a level for every token it is never exceeded. -/
theorem compile_maxDepth (options : CompileOptions) (text : String) (category : Category)
    (d d' : Nat) (h : d ≤ d') :
    (compile { options with maxDepth := d } text category =
        compile { options with maxDepth := d' } text category ∨
      ∃ ts t, Token.scan text options.preserveLiteralCase = .ok ts ∧ t ∈ ts ∧ Opens t ∧
        compile { options with maxDepth := d } text category =
          .error (.grammatical ⟨category, some t.position, .tooDeep d⟩)) ∧
    ∀ ts, Token.scan text options.preserveLiteralCase = .ok ts → ts.length ≤ d →
      ∀ e, compile { options with maxDepth := d } text category = .error (.grammatical e) →
        ∀ limit, e.fault ≠ .tooDeep limit := by
  simp only [compile_eq_admitted, admitted_maxDepth]
  cases hadmitted : admitted options text category with
  | error e =>
    refine ⟨.inl rfl, ?_⟩
    intro ts _ _ e he limit
    cases he
    rw [fault_of_admitted hadmitted]
    exact SyntaxFault.noConfusion
  | ok ts =>
    have hscan := scan_of_admitted hadmitted
    simp only [ok_bind]
    constructor
    · rcases read_maxDepth category text.utf8ByteSize ts h with heq | ⟨t, ht, hopens, herr⟩
      · left
        rw [heq]
      · right
        exact ⟨ts, t, hscan, ht, hopens, by rw [herr]; rfl⟩
    · intro us hus hle e he limit
      obtain rfl : ts = us := Except.ok.inj (hscan.symm.trans hus)
      obtain ⟨e', hread, he'⟩ := mapError_eq_error.1 he
      cases he'
      exact read_ne_tooDeep category text.utf8ByteSize ts hle hread limit

/-- Two levels are too few for three negations in a row, and three are enough. -/
theorem compile_maxDepth_negations :
    (∃ rule, compile { maxDepth := 3 } "NOT NOT NOT AMOUNT > 1 OR TIME = x" .composite = .ok rule) ∧
    ∃ ts t, Token.scan "NOT NOT NOT AMOUNT > 1 OR TIME = x" true = .ok ts ∧ t ∈ ts ∧ Opens t ∧
      compile { maxDepth := 2 } "NOT NOT NOT AMOUNT > 1 OR TIME = x" .composite =
        .error (.grammatical ⟨.composite, some t.position, .tooDeep 2⟩) := by
  let amount : Rule := .comparison .greaterThan (.field .amount) (.literal (.int32 1))
  let time : Rule := .comparison .equal (.field .time) (.literal (.string "x"))
  let rule : Rule := .junction .or (.negation (.negation (.negation amount))) time []
  have hthree : compile { maxDepth := 3 } "NOT NOT NOT AMOUNT > 1 OR TIME = x" .composite =
      .ok rule := by
    decide +kernel
  have htwo : compile { maxDepth := 2 } "NOT NOT NOT AMOUNT > 1 OR TIME = x" .composite ≠
      .ok rule := by
    decide +kernel
  refine ⟨⟨rule, hthree⟩, ?_⟩
  rcases (compile_maxDepth {} "NOT NOT NOT AMOUNT > 1 OR TIME = x" .composite 2 3 (by omega)).1 with
    heq | hexceeded
  · exact absurd (heq.trans hthree) htwo
  · exact hexceeded

end Screening
