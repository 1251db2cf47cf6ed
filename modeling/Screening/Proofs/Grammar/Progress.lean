import Screening.Proofs.Grammar.Following
import Screening.Proofs.Grammar.Size

/-!
# Progress of the machine

Every routine of the machine follows the production of its symbol, with the room that the count
leaves, if it has more steps than there are tokens left. So no run lacks an end, and what is known
of the productions is known of the runs: one with a result has taken a token at least, since what it
took derives the result.
-/

namespace Screening.Grammar

variable {input : Input} {bound : Nat}

/-! ## Single tokens and aggregates -/

section Tokens

variable {c : Cursor}

theorem expect_follows (kind : TokenKind) (wanted : Wanted) :
    Follows input bound (fun _ i => Machine.expect i kind wanted) c
      (expect input.toSetting kind wanted (input.tokens.drop c.position)) := by
  unfold Machine.expect
  refine .peek ?_
  cases ht : input.tokens.drop c.position with
  | nil => exact .fail ..
  | cons t rest =>
    simp only [List.head?_cons, expect]
    split
    · rw [← drop_succ_of_drop ht]
      exact .advance ht (.pure t)
    · exact .fail ..

theorem comparator_follows (wanted : Wanted) :
    Follows input bound (fun _ i => Machine.comparator i wanted) c
      (comparator input.toSetting wanted (input.tokens.drop c.position)) := by
  unfold Machine.comparator comparator
  refine .bind (expect_follows ..) fun t n _ => ?_
  dsimp only
  cases Comparator.ofSymbol? t.text with
  | some op => exact .pure op
  | none => exact .fail ..

theorem argument_follows (function : AggregateFunction) :
    Follows input bound (fun _ i => Machine.argument i function) c
      (argument input.toSetting function (input.tokens.drop c.position)) := by
  unfold Machine.argument
  refine .peek ?_
  cases ht : input.tokens.drop c.position with
  | nil => exact .fail ..
  | cons t rest =>
    rw [← drop_succ_of_drop ht]
    simp only [List.head?_cons, argument]
    cases t.kind with
    | field =>
      exact .ofExcept (fun _ _ h => fieldOf_eq_ok.2 (fieldOf_eq_ok.1 h))
        fun name => .advance ht (.pure _)
    | wildcard => exact .advance ht (.pure _)
    | _ => exact .fail ..

/-- An aggregate with the name in front. -/
def aggregateCall (s : Setting) : Production := fun ts => do
  let (t, ts) ← expect s .aggregateFunction .aggregateFunction ts
  aggregate s t ts

theorem aggregateCall_cons {s : Setting} {t : Token} (hk : t.kind = .aggregateFunction)
    (rest : List Token) : aggregateCall s (t :: rest) = aggregate s t rest := by
  simp [aggregateCall, expect, hk]

theorem aggregate_follows :
    Follows input bound (fun _ => Machine.aggregate) c
      (aggregateCall input.toSetting (input.tokens.drop c.position)) := by
  show Follows input bound (fun _ i => Machine.aggregate i) _ _
  unfold Machine.aggregate aggregateCall
  refine .bind (expect_follows ..) fun t n _ => ?_
  simp only [aggregate]
  cases (Named.find? t.text : Option AggregateFunction) with
  | none => exact .fail ..
  | some function =>
    refine .bind (expect_follows ..) fun _ n _ => ?_
    refine .bind (argument_follows function) fun operand n _ => ?_
    exact .bind (expect_follows ..) fun _ n _ => .pure _

end Tokens

/-! ## Productions -/

/-- With more than `bound` steps, the routine follows the production wherever it is started with
the count at `depth` and at most `bound` tokens left. -/
def Mirrors (input : Input) (bound depth : Nat) (m : Nat → Input → Machine Rule)
    (reader : Production) : Prop :=
  ∀ position, input.tokens.length - position ≤ bound →
    Follows input bound m ⟨position, depth⟩ (reader (input.tokens.drop position))

/-- What is opened with the count at `depth` is read as by `inner`. A token was taken to open it. -/
def InnerMirrors (input : Input) (bound depth : Nat) (inside : Nat → Input → Inner → Machine Rule)
    (inner : InnerReader) : Prop :=
  ∀ kind opened position, input.tokens.length - position < bound →
    Follows input bound (fun k i => Machine.nested i opened (inside k i kind)) ⟨position, depth⟩
      (inner kind opened (input.tokens.drop position))

section Productions

variable {depth : Nat} {inside : Nat → Input → Inner → Machine Rule} {inner : InnerReader}

section Inside

variable (hi : InnerMirrors input bound depth inside inner)
include hi

theorem atom_mirrors :
    Mirrors input bound depth (fun k i => Machine.atom i (inside k i))
      (atom input.toSetting inner) := by
  intro position hleft
  unfold Machine.atom
  refine .peek ?_
  cases ht : input.tokens.drop position with
  | nil => exact .fail ..
  | cons t rest =>
    have hrest := drop_succ_of_drop ht
    have htake (rule : Rule) : Follows input bound (fun _ _ => do Machine.advance; pure rule)
        ⟨position, depth⟩ (.ok (rule, rest)) := hrest ▸ .advance ht (.pure rule)
    simp only [List.head?_cons, atom]
    cases hk : t.kind with
    | number =>
      exact .ofExcept (fun _ _ h => numberOf_eq_ok.2 (numberOf_eq_ok.1 h))
        fun value => htake (.literal value)
    | string =>
      cases unquote? t.text with
      | some body => exact htake _
      | none => exact .fail ..
    | bool => exact htake _
    | field =>
      exact .ofExcept (fun _ _ h => fieldOf_eq_ok.2 (fieldOf_eq_ok.1 h))
        fun name => htake (.field name)
    | identifier => exact htake _
    | aggregateFunction =>
      dsimp only
      rw [← aggregateCall_cons hk, ← ht]
      exact aggregate_follows
    | lparen =>
      subst hrest
      have hlt := lt_length_of_drop ht
      have hinside := hi .group t.position (position + 1) (by omega)
      refine .advance ht (.bind hinside fun rule n _ => ?_)
      exact .bind (expect_follows ..) fun _ n _ => .pure rule
    | _ => exact .fail ..

theorem comparison_mirrors :
    Mirrors input bound depth (fun k i => Machine.comparison i (inside k i))
      (comparison input.toSetting inner) := by
  intro position hleft
  unfold Machine.comparison comparison
  refine .bind (atom_mirrors hi position hleft) fun left n (hn : position ≤ n) => .peek ?_
  dsimp only
  split
  · refine .bind (comparator_follows _) fun op n' (hn' : n ≤ n') => ?_
    exact .bind (atom_mirrors hi n' (by omega)) fun right _ _ => .pure _
  · exact .pure left

end Inside

/-- An operand that must be a condition. The place that the error would name is taken before it is
read. -/
theorem condition_follows {m : Nat → Input → Machine Rule} {operand : Production} (op : LogicOp)
    {c : Cursor} (hm : Follows input bound m c (operand (input.tokens.drop c.position))) :
    Follows input bound
      (fun k i => do
        let start ← Machine.place i
        let rule ← m k i
        Machine.condition i op rule start) c
      (condition input.toSetting op operand (input.tokens.drop c.position)) := by
  refine .place (.bind hm fun rule n _ => ?_)
  unfold Machine.condition
  dsimp only
  split
  · exact .pure rule
  · exact .fail ..

theorem factor_mirrors (hi : InnerMirrors input bound depth inside inner) :
    Mirrors input bound depth (fun k i => Machine.factor i (inside k i))
      (factor input.toSetting inner) := by
  intro position hleft
  unfold Machine.factor
  have hplain := comparison_mirrors hi position hleft
  cases ht : input.tokens.drop position with
  | nil =>
    rw [ht] at hplain
    exact .not_at_logic (by simp [ht]) hplain
  | cons t rest =>
    simp only [factor]
    cases hnot : isLogic .not t with
    | false =>
      rw [ht] at hplain
      exact .not_at_logic (by simp [ht, hnot]) hplain
    | true =>
      have hlt := lt_length_of_drop ht
      have hoperand := condition_follows .not (hi .negated t.position (position + 1) (by omega))
      simp only [drop_succ_of_drop ht] at hoperand
      refine .at_logic (by simp [ht, hnot]) (.place_cons ht (.advance ht ?_))
      refine .of_eq (fun k _ i => ?_) (.bind hoperand fun rule n _ => .pure rule.negation)
      simp only [bind_assoc]

/-! ## Chains -/

section Chains

variable {op : Junction} {m : Nat → Input → Machine Rule} {operand : Production}
  (ho : Mirrors input bound depth m operand)
include ho

/-- Behind a link the cursor is not where it was, whatever its operand took. -/
theorem link_follows {α : Type} {f : Nat → Input → Rule → Machine α} {g position t rest}
    (hleft : input.tokens.length - position ≤ bound)
    (ht : input.tokens.drop position = t :: rest)
    (hf : ∀ rule n, position < n →
      Follows input bound (fun k i => f k i rule) ⟨n, depth⟩ (g (rule, input.tokens.drop n))) :
    Follows input bound (fun k i => Machine.link i op (m k i) >>= f k i) ⟨position, depth⟩
      (condition input.toSetting op.op operand rest >>= g) := by
  have hoperand := condition_follows op.op (ho (position + 1) (by omega))
  simp only [drop_succ_of_drop ht] at hoperand
  refine .of_eq (fun k _ i => ?_) (.advance ht (.bind hoperand fun rule n hn => hf rule n hn))
  simp only [Machine.link, bind_assoc]

/-- A round takes a token from those that are left, and the last one finds that there is no
operator. So the rounds are enough as long as no more of them are spent than tokens. -/
theorem links_follows {rounds spent position : Nat}
    (hspent : input.tokens.length - position + spent ≤ bound)
    (hrounds : input.tokens.length - position ≤ rounds) :
    Follows input bound (fun k i => Machine.links i op (m k i) (k - spent)) ⟨position, depth⟩
      (moreOperands input.toSetting op operand rounds (input.tokens.drop position)) := by
  induction rounds generalizing spent position with
  | zero =>
    have ht : input.tokens.drop position = [] := List.drop_eq_nil_of_le (by omega)
    refine .of_eq (fun k hk i => Machine.links_of_pos i (by omega)) ?_
    exact .not_at_logic (by simp [ht]) (.pure [])
  | succ rounds ih =>
    refine .of_eq (fun k hk i => Machine.links_of_pos i (by omega)) ?_
    have hend : Follows input bound (fun _ _ => pure []) ⟨position, depth⟩
        (.ok (([] : List Rule), input.tokens.drop position)) := .pure []
    cases ht : input.tokens.drop position with
    | nil =>
      rw [ht] at hend
      exact .not_at_logic (by simp [ht]) hend
    | cons t rest =>
      simp only [moreOperands]
      cases hj : isLogic op.op t with
      | false =>
        rw [ht] at hend
        exact .not_at_logic (by simp [ht, hj]) hend
      | true =>
        have hlt := lt_length_of_drop ht
        refine .at_logic (by simp [ht, hj]) (link_follows ho (by omega) ht fun rule n hn => ?_)
        have hmore := @ih (spent + 1) n (by omega) (by omega)
        exact .bind hmore fun rules n _ => .pure (rule :: rules)

theorem chain_mirrors :
    Mirrors input bound depth (fun k i => Machine.chain i op (m k i) k)
      (chain input.toSetting op operand) := by
  intro position hleft
  rw [chain_eq]
  unfold Machine.chain
  refine .place (.bind (ho position hleft) fun first n (hn : position ≤ n) => ?_)
  dsimp only
  have hend : Follows input bound (fun _ _ => pure first) ⟨n, depth⟩
      (.ok (first, input.tokens.drop n)) := .pure first
  cases ht : input.tokens.drop n with
  | nil =>
    rw [ht] at hend
    exact .not_at_logic (by simp [ht]) hend
  | cons t rest =>
    dsimp only
    cases hj : isLogic op.op t with
    | false =>
      rw [ht] at hend
      exact .not_at_logic (by simp [ht, hj]) hend
    | true =>
      refine .at_logic (by simp [ht, hj]) ?_
      unfold Machine.condition
      cases first.isCondition with
      | false => exact .fail ..
      | true =>
        simp only [↓reduceIte, pure_bind]
        -- the loop looks for the operator again and finds it, so there are two operands at least
        refine .of_eq (fun k hk i => Machine.links_bind_of_pos i _ (by omega)) ?_
        have hlt := lt_length_of_drop ht
        have hrest : rest.length = input.tokens.length - (n + 1) := by
          rw [← drop_succ_of_drop ht, List.length_drop]
        refine .at_logic (by simp [ht, hj]) (link_follows ho (by omega) ht fun second n' hn' => ?_)
        have hmore : Follows input bound (fun k i => Machine.links i op (m k i) (k - 1))
            ⟨n', depth⟩ (moreOperands input.toSetting op operand rest.length
              (input.tokens.drop n')) := links_follows ho (by omega) (by omega)
        refine .bind hmore fun more n _ => ?_
        exact .of_eq (fun _ _ _ => Machine.ofChain_cons op first second more) (.pure _)

end Chains

/-! ## Nesting -/

/-- Each symbol's routine mirrors its production if what it opens is mirrored. -/
theorem routine_mirrors {room : Nat}
    (hi : InnerMirrors input bound depth inside (innerAt input.toSetting room)) (symbol : Symbol) :
    Mirrors input bound depth (fun k i => Machine.routine i k (inside k i) symbol)
      (production input.toSetting room symbol) := by
  cases symbol with
  | chain op =>
    cases op with
    | and => exact chain_mirrors (factor_mirrors hi)
    | or => exact chain_mirrors (chain_mirrors (factor_mirrors hi))
  | factor => exact factor_mirrors hi
  | comparison => exact comparison_mirrors hi
  | atom => exact atom_mirrors hi

/-- What stands inside is read by the same routines with a step less. -/
theorem InnerMirrors.parse {room : Nat}
    (hi : InnerMirrors input bound depth (fun k i kind => Machine.parse i (k - 1) kind.symbol)
      (innerAt input.toSetting room)) (symbol : Symbol) :
    Mirrors input bound depth (fun k i => Machine.parse i k symbol)
      (production input.toSetting room symbol) :=
  fun position hleft => .of_eq (fun _ hk i => Machine.parse_of_pos i (Nat.zero_lt_of_lt hk) symbol)
    (routine_mirrors hi symbol position hleft)

/-- The room of a production is what is left between the count and the limit. -/
theorem innerMirrors {room : Nat} (hroom : input.maxDepth - depth = room) :
    InnerMirrors input bound depth (fun k i kind => Machine.parse i (k - 1) kind.symbol)
      (innerAt input.toSetting room) := by
  induction room generalizing bound depth with
  | zero =>
    intro kind opened position _
    exact .nested_of_le (Nat.le_of_sub_eq_zero hroom)
  | succ room ih =>
    intro kind opened position hleft
    -- the token that opened it is one of the `bound` that were left
    obtain ⟨bound, rfl⟩ := Nat.exists_eq_succ_of_ne_zero (Nat.ne_zero_of_lt hleft)
    have hdeeper : input.maxDepth - (depth + 1) = room := by omega
    have hinside := (ih hdeeper).parse kind.symbol position (Nat.le_of_lt_succ hleft)
    rw [innerAt_succ]
    exact .nested (Nat.lt_of_sub_eq_succ hroom) hinside.pred

end Productions

/-! ## Runs -/

theorem production_sound {s : Setting} (room : Nat) (symbol : Symbol) :
    Sound (production s room symbol) symbol room := by
  have hi : InnerSound (innerAt s room) room := innerAt_sound room
  cases symbol with
  | chain op =>
    cases op with
    | and => exact chain_sound (factor_sound hi)
    | or => exact expression_sound hi
  | factor => exact factor_sound hi
  | comparison => exact comparison_sound hi
  | atom => exact atom_sound hi

/-- The routines that read a rule. -/
inductive Routine
  | parse (symbol : Symbol)
  | aggregate

namespace Routine

/-- The routine on the machine, with so many steps. -/
def machine : Routine → Nat → Input → Machine Rule
  | parse symbol, steps, input => Machine.parse input steps symbol
  | aggregate, _, input => Machine.aggregate input

/-- Its production, which may open so many groups and negations. -/
def production (s : Setting) (room : Nat) : Routine → Production
  | parse symbol => Grammar.production s room symbol
  | aggregate => aggregateCall s

/-- The routine follows its production, which has the room that the count leaves. -/
theorem follows (routine : Routine) (input : Input) (c : Cursor) :
    Follows input (input.tokens.length - c.position) routine.machine c
      (routine.production input.toSetting (input.maxDepth - c.depth)
        (input.tokens.drop c.position)) := by
  cases routine with
  | parse symbol => exact (innerMirrors rfl).parse symbol c.position (Nat.le_refl _)
  | aggregate => exact aggregate_follows

/-- A production that succeeds takes a token at least. -/
theorem length_lt_of_production {routine : Routine} {s : Setting} {room : Nat}
    {ts rest : List Token} {rule : Rule}
    (h : routine.production s room ts = .ok (rule, rest)) : rest.length < ts.length := by
  cases routine with
  | parse symbol =>
    obtain ⟨taken, rfl, hd⟩ := production_sound room symbol h
    have hpos := hd.length_pos
    rw [List.length_append]
    omega
  | aggregate =>
    obtain ⟨⟨t, us⟩, ht, hcall⟩ := bind_eq_ok.1 h
    obtain ⟨rfl, -⟩ := expect_eq_ok.1 ht
    obtain ⟨opening, arg, closing, function, operand, rfl, -⟩ := aggregate_eq_ok.1 hcall
    simp only [List.length_cons]
    omega

end Routine

/-- Every routine, started at any cursor over any tokens, comes to an end as soon as it has more
steps than tokens are left, and its result is that of its production on these tokens. The cursor
does not move back nor beyond the end, and the count is restored. With a result, the cursor has
moved and stands at the tokens that the production left, and every other input that agrees on the
tokens in between and on the next one gives the same result and cursor. -/
theorem routine_progress (routine : Routine) (input : Input) (c : Cursor) :
    ∃ result n, c.position ≤ n ∧ n ≤ max c.position input.tokens.length ∧
      (∀ steps, input.tokens.length - c.position < steps →
        (routine.machine steps input).runFrom c = some (result, ⟨n, c.depth⟩)) ∧
      (routine.production input.toSetting (input.maxDepth - c.depth)
        (input.tokens.drop c.position)).map Prod.fst = result ∧
      ∀ rule, result = .ok rule →
        c.position < n ∧ n ≤ input.tokens.length ∧
        routine.production input.toSetting (input.maxDepth - c.depth)
          (input.tokens.drop c.position) = .ok (rule, input.tokens.drop n) ∧
        ∀ other, input.Agrees other c.position n →
          ∀ steps, input.tokens.length - c.position < steps →
            (routine.machine steps other).runFrom c = some (.ok rule, ⟨n, c.depth⟩) := by
  obtain ⟨n, hn, hle, hrun⟩ := routine.follows input c
  cases hx : routine.production input.toSetting (input.maxDepth - c.depth)
      (input.tokens.drop c.position) with
  | error e =>
    rw [hx] at hrun
    exact ⟨.error e, n, hn, hle, hrun, rfl, nofun⟩
  | ok p =>
    obtain ⟨rule, rest⟩ := p
    rw [hx] at hrun
    obtain ⟨rfl, hrun⟩ := hrun
    have hless := Routine.length_lt_of_production hx
    simp only [List.length_drop] at hless
    refine ⟨.ok rule, n, hn, hle, fun k hk => hrun k hk input (.refl ..), rfl,
      fun rule' hrule => ?_⟩
    cases hrule
    exact ⟨by omega, by omega, rfl, fun other ho k hk => hrun k hk other ho⟩

/-- From their second tokens on, `(AMOUNT > 100) = TRUE` and `NOT AMOUNT > 100)` agree up to `)`, and
the second text ends there. -/
theorem routine_progress_in_group :
    ∃ input other : Input, input.tokens.length = 7 ∧ other.tokens.length = 5 ∧
      input.finish ≠ other.finish ∧ input.Agrees other 1 4 ∧
      ∀ text ∈ [input, other], ((Routine.parse (.chain .or)).machine 7 text).runFrom ⟨1, 1⟩ =
        some (.ok (.comparison .greaterThan (.field .amount) (.literal (.int32 100))), ⟨4, 1⟩) := by
  let rule : Rule := .comparison .greaterThan (.field .amount) (.literal (.int32 100))
  let condition : List Token :=
    [⟨.field, "AMOUNT", 1⟩, ⟨.comparisonOp, ">", 8⟩, ⟨.number, "100", 10⟩, ⟨.rparen, ")", 13⟩]
  let input : Input := ⟨⟨.composite, 1, 21⟩,
    ⟨.lparen, "(", 0⟩ :: (condition ++ [⟨.comparisonOp, "=", 15⟩, ⟨.bool, "TRUE", 17⟩])⟩
  let other : Input := ⟨⟨.composite, 1, 14⟩, ⟨.logicOp, "NOT", 0⟩ :: condition⟩
  have hagree : input.Agrees other 1 4 := by
    refine ⟨rfl, fun i hi hi' => ?_⟩
    obtain rfl | rfl | rfl | rfl : i = 1 ∨ i = 2 ∨ i = 3 ∨ i = 4 := by omega
    all_goals rfl
  have hread : production input.toSetting 0 (.chain .or) (input.tokens.drop 1) =
      .ok (rule, input.tokens.drop 4) := by decide +kernel
  have hlength : input.tokens.length = 7 := rfl
  obtain ⟨result, n, -, -, hrun, hresult, hok⟩ :=
    routine_progress (.parse (.chain .or)) input ⟨1, 1⟩
  obtain rfl : .ok rule = result := (congrArg (Except.map Prod.fst) hread).symm.trans hresult
  obtain ⟨hn, hle, hrest, hsame⟩ := hok rule rfl
  -- three of the seven tokens are left, so the cursor stands at index four
  obtain rfl : n = 4 := by
    have hleft : input.tokens.drop 4 = input.tokens.drop n :=
      (Prod.mk.inj (Except.ok.inj (hread.symm.trans hrest))).2
    have hlengths := congrArg List.length hleft
    rw [List.length_drop, List.length_drop] at hlengths
    omega
  have hsteps : input.tokens.length - 1 < 7 := by omega
  exact ⟨input, other, hlength, rfl, by decide, hagree, List.forall_mem_cons.2
    ⟨hrun 7 hsteps, List.forall_mem_singleton.2 (hsame other hagree 7 hsteps)⟩⟩

end Screening.Grammar
