import Screening.Proofs.Grammar.Soundness

/-!
# What is derived is read

On tokens that a symbol derives its production gives back the rule of the derivation and leaves
exactly the tokens behind them, provided the token that follows does not go on with the symbol.
If the room is less than the budget of the derivation, it may instead say that the nesting is
too deep, and nothing else.
-/

namespace Screening.Grammar

variable {s : Setting}

/-! ## Results up to the limit on nesting -/

/-- The result is `a`, or, if `short` holds, the error that the nesting is too deep. -/
def Yields {α : Type} (s : Setting) (short : Prop) (result : Except SyntaxError α) (a : α) : Prop :=
  result = .ok a ∨ short ∧ ∃ p, result = .error ⟨s.category, some p, .tooDeep s.maxDepth⟩

namespace Yields

variable {α β : Type} {short : Prop} {result : Except SyntaxError α} {a : α} {b : β}

theorem ok (h : result = .ok a) : Yields s short result a := .inl h

theorem bind {f : α → Except SyntaxError β} (hx : Yields s short result a)
    (hf : Yields s short (f a) b) : Yields s short (result >>= f) b := by
  rcases hx with rfl | ⟨hs, p, rfl⟩
  · exact hf
  · exact .inr ⟨hs, p, rfl⟩

theorem mono {short' : Prop} (h : Yields s short result a) (hs : short → short') :
    Yields s short' result a :=
  h.imp id fun h => ⟨hs h.1, h.2⟩

theorem eq_ok (h : Yields s short result a) (hs : ¬ short) : result = .ok a :=
  h.resolve_right fun h => hs h.1

theorem condition {op : LogicOp} {operand : Production} {ts rest : List Token} {rule : Rule}
    (h : Yields s short (operand ts) (rule, rest)) (hc : rule.isCondition = true) :
    Yields s short (condition s op operand ts) (rule, rest) := by
  rcases h with h | ⟨hs, p, h⟩
  · exact .ok (condition_eq_ok.2 ⟨h, hc⟩)
  · refine .inr ⟨hs, p, ?_⟩
    rw [Grammar.condition, h]
    rfl

end Yields

/-! ## What follows a symbol -/

/-- The token goes on with the symbol instead of ending it. -/
def Symbol.continues : Symbol → Token → Bool
  | .atom, _ => false
  | .comparison, t | .factor, t => t.kind == .comparisonOp
  | .chain .and, t => isLogic .and t || t.kind == .comparisonOp
  | .chain .or, t => isLogic .or t || isLogic .and t || t.kind == .comparisonOp

/-- The tokens do not go on with the symbol. -/
def Stops (symbol : Symbol) (rest : List Token) : Prop :=
  ∀ t ∈ rest.head?, symbol.continues t = false

theorem Stops.nil (symbol : Symbol) : Stops symbol [] := by
  simp [Stops]

theorem stops_cons {symbol t rest} :
    Stops symbol (t :: rest) ↔ symbol.continues t = false := by
  simp [Stops]

theorem stops_atom (rest : List Token) : Stops .atom rest := fun _ _ => rfl

/-- What ends a chain ends its last operand. -/
theorem Stops.operandOf {op rest} (h : Stops (.chain op) rest) : Stops (operandOf op) rest := by
  intro t ht
  have := h t ht
  cases op <;> simp_all [Grammar.operandOf, Symbol.continues]

/-- What ends a chain is not its operator. -/
theorem Stops.not_isLogic {op t rest} (h : Stops (.chain op) (t :: rest)) :
    isLogic op.op t = false := by
  have := stops_cons.1 h
  cases op <;> simp_all [Symbol.continues, Junction.op]

/-- The operator of a chain ends the operand in front of it. -/
theorem stops_joint {op : Junction} {t rest} (h : isLogic op.op t = true) :
    Stops (operandOf op) (t :: rest) := by
  obtain ⟨hk, ht⟩ := isLogic_iff.1 h
  have hne : LogicOp.or.name ≠ LogicOp.and.name := by decide
  cases op <;> simp_all [stops_cons, Grammar.operandOf, Symbol.continues, isLogic, Junction.op]

theorem stops_rparen {symbol t rest} (h : t.kind = .rparen) : Stops symbol (t :: rest) := by
  rw [stops_cons]
  cases symbol with
  | chain op => cases op <;> simp [Symbol.continues, isLogic, h]
  | _ => simp [Symbol.continues, h]

/-! ## Single productions -/

/-- A comparison that no comparator follows is its one operand. -/
theorem comparison_single {inner : InnerReader} {short ts rule rest}
    (h : Yields s short (atom s inner ts) (rule, rest)) (hr : Stops .comparison rest) :
    Yields s short (comparison s inner ts) (rule, rest) := by
  refine h.bind (.ok ?_)
  have : rest.head?.map Token.kind ≠ some .comparisonOp := by
    cases rest with
    | nil => simp
    | cons t rest => simpa [stops_cons, Symbol.continues] using hr
  simp only [this, if_false]
  rfl

theorem comparison_compare {inner : InnerReader} {short ts t op us left right rest}
    (hl : Yields s short (atom s inner ts) (left, t :: us)) (ht : Compares t op)
    (hr : Yields s short (atom s inner us) (right, rest)) :
    Yields s short (comparison s inner ts) (.comparison op left right, rest) := by
  refine hl.bind ?_
  simp only [List.head?_cons, Option.map_some, ht.kind, if_true]
  exact Yields.bind (.ok (comparator_eq_ok.2 ⟨t, rfl, ht⟩)) (hr.bind (.ok rfl))

/-- A factor that begins with no logical operator is a comparison. -/
theorem factor_of_ne_logicOp {inner : InnerReader} {t : Token} (h : t.kind ≠ .logicOp)
    (rest : List Token) : factor s inner (t :: rest) = comparison s inner (t :: rest) := by
  simp [factor, isLogic, h]

/-- A group or a negation that is opened with room for it is read with one room less; else the
nesting is too deep. -/
theorem innerAt_yields {kind : Inner} {room d opened ts rule rest}
    (h : ∀ room, Yields s (room < d) (production s room kind.symbol ts) (rule, rest)) :
    Yields s (room < d + 1) (innerAt s room kind opened ts) (rule, rest) := by
  cases room with
  | zero => exact .inr ⟨Nat.succ_pos d, opened, rfl⟩
  | succ room =>
    rw [innerAt_succ]
    exact (h room).mono Nat.succ_lt_succ

/-- The links of a run are read one after the other, if a step is allowed for each. -/
theorem moreOperands_yields {op : Junction} {operand : Production} {short : Prop}
    {rest : List Token} (hrest : Stops (.chain op) rest) (links : List Link)
    (hj : ∀ link ∈ links, isLogic op.op link.joint = true)
    (ho : ∀ link ∈ links, ∀ behind, Stops (operandOf op) behind →
      Yields s short (operand (link.tokens ++ behind)) (link.rule, behind))
    (hc : ∀ link ∈ links, link.rule.isCondition = true) {steps : Nat}
    (hsteps : links.length ≤ steps) :
    Yields s short (moreOperands s op operand steps (links.flatMap Link.span ++ rest))
      (links.map Link.rule, rest) := by
  induction links generalizing steps with
  | nil =>
    refine .ok ?_
    cases rest with
    | nil => cases steps <;> rfl
    | cons t rest =>
      cases steps with
      | zero => rfl
      | succ steps => simp [moreOperands, hrest.not_isLogic]
  | cons link links ih =>
    obtain ⟨steps, rfl⟩ := Nat.exists_eq_add_of_le' (Nat.le_of_add_left_le hsteps)
    simp only [List.forall_mem_cons] at hj ho hc
    -- behind an operand stands the next operator or what follows the run
    have hbehind : Stops (operandOf op) (links.flatMap Link.span ++ rest) := by
      cases links with
      | nil => exact hrest.operandOf
      | cons next links => exact stops_joint (hj.2 next (by simp))
    have hlink : Yields s short
        (condition s op.op operand (link.tokens ++ (links.flatMap Link.span ++ rest)))
        (link.rule, links.flatMap Link.span ++ rest) :=
      (ho.1 _ hbehind).condition hc.1
    have hmore := ih hj.2 ho.2 hc.2 (by simpa using hsteps)
    simp only [List.flatMap_cons, Link.span, List.cons_append, List.append_assoc, moreOperands,
      hj.1, if_true]
    exact hlink.bind (hmore.bind (.ok rfl))

theorem chain_single {op : Junction} {operand : Production} {short ts rule rest}
    (h : Yields s short (operand ts) (rule, rest)) (hr : Stops (.chain op) rest) :
    Yields s short (chain s op operand ts) (rule, rest) := by
  rw [chain_eq]
  refine h.bind (.ok ?_)
  cases rest with
  | nil => rfl
  | cons t rest =>
    simp only [hr.not_isLogic]
    rfl

theorem chain_run {op : Junction} {operand : Production} {short ts first rest}
    {second : Link} {more : List Link}
    (hf : Yields s short (operand (ts ++ ((second :: more).flatMap Link.span ++ rest)))
      (first, (second :: more).flatMap Link.span ++ rest))
    (hc : first.isCondition = true) (hrest : Stops (.chain op) rest)
    (hj : ∀ link ∈ second :: more, isLogic op.op link.joint = true)
    (ho : ∀ link ∈ second :: more, ∀ behind, Stops (operandOf op) behind →
      Yields s short (operand (link.tokens ++ behind)) (link.rule, behind))
    (hcs : ∀ link ∈ second :: more, link.rule.isCondition = true) :
    Yields s short (chain s op operand (ts ++ ((second :: more).flatMap Link.span ++ rest)))
      (.junction op first second.rule (more.map Link.rule), rest) := by
  simp only [List.forall_mem_cons] at hj ho hcs
  have hbehind : Stops (operandOf op) (more.flatMap Link.span ++ rest) := by
    cases more with
    | nil => exact hrest.operandOf
    | cons next more => exact stops_joint (hj.2 next (by simp))
  have hsecond : Yields s short
      (condition s op.op operand (second.tokens ++ (more.flatMap Link.span ++ rest)))
      (second.rule, more.flatMap Link.span ++ rest) :=
    (ho.1 _ hbehind).condition hcs.1
  -- a link has one token at least, so there are enough steps
  have hlength : more.length ≤ (second.tokens ++ (more.flatMap Link.span ++ rest)).length := by
    clear hj ho hcs hf hbehind hsecond
    induction more with
    | nil => simp
    | cons link more ih =>
      simp only [List.flatMap_cons, Link.span, List.length_append, List.length_cons] at ih ⊢
      omega
  have hmore := moreOperands_yields hrest more hj.2 ho.2 hcs.2 hlength
  rw [chain_eq]
  refine hf.bind ?_
  simp only [List.flatMap_cons, Link.span, List.cons_append, List.append_assoc, hj.1, hc, if_true]
  exact hsecond.bind (hmore.bind (.ok rfl))

/-! ## All symbols -/

/-- The production of a symbol reads what the symbol derives, and can only fail for want of
room. -/
theorem Derives.yields {symbol d ts rule} (h : Derives symbol d ts rule) :
    ∀ room rest, Stops symbol rest →
      Yields s (room < d) (production s room symbol (ts ++ rest)) (rule, rest) := by
  induction h with
  | literal h =>
    intro room rest _
    exact .ok (atom_of_denotes h rest)
  | field hk ht =>
    intro room rest _
    refine .ok ?_
    simp only [production, List.cons_append, List.nil_append, atom, hk, fieldOf_eq_ok.2 ht,
      ok_bind]
    rfl
  | aggregate hk ht ho ha hc =>
    intro room rest _
    refine .ok ?_
    simp only [production, List.cons_append, List.nil_append, atom, hk]
    exact aggregate_eq_ok.2 ⟨_, _, _, _, _, rfl, ht, ho, ha, hc, rfl⟩
  | @group d opening ts closing rule ho _ hc ih =>
    intro room rest _
    -- the closing parenthesis ends whatever stands inside
    have hin : Yields s (room < d + 1)
        (innerAt s room .group opening.position (ts ++ (closing :: rest)))
        (rule, closing :: rest) :=
      innerAt_yields fun room => ih room (closing :: rest) (stops_rparen hc)
    simp only [production, List.cons_append, List.append_assoc, List.nil_append, atom, ho]
    exact hin.bind (Yields.bind (.ok (expect_eq_ok.2 ⟨rfl, hc⟩)) (.ok rfl))
  | operand _ ih =>
    intro room rest hrest
    exact comparison_single (ih room rest (stops_atom rest)) hrest
  | compare _ ht _ ihl ihr =>
    intro room rest _
    rw [List.append_assoc, List.cons_append]
    exact comparison_compare (ihl room _ (stops_atom _)) ht (ihr room rest (stops_atom rest))
  | plain h ih =>
    intro room rest hrest
    -- a comparison does not begin with NOT, so the factor is read as one
    obtain ⟨t, us, rfl, ht⟩ := h.cons (.inr rfl)
    have hc := ih room rest hrest
    rw [List.cons_append] at hc ⊢
    rw [production, factor_of_ne_logicOp ht]
    exact hc
  | @negation d t ts rule ht _ hc ih =>
    intro room rest hrest
    have hin : Yields s (room < d + 1) (innerAt s room .negated t.position (ts ++ rest))
        (rule, rest) :=
      innerAt_yields fun room => ih room rest hrest
    simp only [production, List.cons_append, factor, ht, if_true]
    exact (hin.condition hc).bind (.ok rfl)
  | single _ ih =>
    intro room rest hrest
    rw [production_chain]
    exact chain_single (ih room rest hrest.operandOf) hrest
  | run _ hc hj _ hcs ih ihs =>
    intro room rest hrest
    rw [production_chain, List.append_assoc]
    refine chain_run (ih room _ ?_) hc hrest hj (fun link hl => ihs link hl room) hcs
    exact stops_joint (hj _ List.mem_cons_self)

/-! ## All tokens -/

theorem Generates.entry_yields {d ts rule} (h : Generates s.category d ts rule) :
    Yields s (s.maxDepth < d) (entry s ts) (rule, []) := by
  generalize hcat : s.category = category at h
  cases h with
  | threshold h =>
    have hy := h.yields (s := s) s.maxDepth [] (.nil _)
    rw [List.append_nil] at hy
    simp only [entry, hcat]
    exact hy.bind (.ok rfl)
  | @pattern _ ls t rs op call v hl ht hr =>
    have hleft := hl.yields (s := s) s.maxDepth (t :: rs) (stops_atom _)
    have hright := hr.yields (s := s) s.maxDepth [] (stops_atom _)
    rw [List.append_nil] at hright
    simp only [entry, hcat]
    exact hleft.bind (Yields.bind (.ok (comparator_eq_ok.2 ⟨t, rfl, ht⟩)) (hright.bind (.ok rfl)))
  | composite h =>
    have hy := h.yields (s := s) s.maxDepth [] (.nil _)
    rw [List.append_nil] at hy
    simp only [entry, hcat]
    exact hy

/-- Reading is complete up to the limit on nesting. -/
theorem Generates.yields {d ts rule} (h : Generates s.category d ts rule) :
    Yields s (s.maxDepth < d) (read s ts) rule :=
  h.entry_yields.bind (.ok rfl)

/-- The reader accepts exactly the grammar: it returns a rule if and only if the category
generates all the tokens as that rule, with no more groups and negations around one another
than the limit allows. -/
theorem read_eq_ok_iff (s : Setting) (ts : List Token) (rule : Rule) :
    read s ts = .ok rule ↔ Generates s.category s.maxDepth ts rule :=
  ⟨generates_of_read, fun h => h.yields.eq_ok (Nat.lt_irrefl _)⟩

end Screening.Grammar
