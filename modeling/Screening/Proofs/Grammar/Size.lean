import Screening.Proofs.Document.Height
import Screening.Proofs.Grammar.Admitted
import Screening.Proofs.Grammar.Completeness
import Screening.Proofs.Rule.Equality
import Screening.Token.Scan

/-!
# Sizes of trees

How large a rule can become that was read off tokens. Its depth is bounded by the limit on nesting:
between one group and the next there can be a disjunction, a conjunction and a comparison, so a group
costs three levels. The number of its nodes is bounded by the number of the tokens.
-/

namespace Screening.Grammar

/-! ## Depth -/

/-- How many levels the tree of what the symbol derives can have outside of its groups and
negations. An aggregate has two. -/
def Symbol.depth : Symbol → Nat
  | .atom => 2
  | .comparison | .factor => 3
  | .chain .and => 4
  | .chain .or => 5

theorem Symbol.depth_chain (op : Junction) : (chain op).depth = (operandOf op).depth + 1 := by
  cases op <;> rfl

theorem Symbol.depth_le (symbol : Symbol) : symbol.depth ≤ 5 := by
  cases symbol with
  | chain op => cases op <;> decide
  | _ => decide

/-- A group adds no more than three levels, and a negation one. -/
theorem Derives.depth_le {symbol d ts rule} (h : Derives symbol d ts rule) :
    rule.depth ≤ 3 * d + symbol.depth := by
  induction h with
  | literal => simp [Rule.depth, Symbol.depth]
  | field => simp [Rule.depth, Symbol.depth]
  | aggregate => simp [Rule.depth, Symbol.depth]
  | group _ _ _ ih =>
    simp only [Symbol.depth] at ih ⊢
    omega
  | operand _ ih =>
    simp only [Symbol.depth] at ih ⊢
    omega
  | compare _ _ _ ihl ihr =>
    simp only [Rule.depth, Symbol.depth] at ihl ihr ⊢
    omega
  | plain _ ih => exact ih
  | negation _ _ _ ih =>
    simp only [Rule.depth, Symbol.depth] at ih ⊢
    omega
  | single _ ih =>
    rw [Symbol.depth_chain]
    omega
  | @run op d _ _ second more _ _ _ _ _ ih ihs =>
    have hmore : Rule.depthAll (more.map Link.rule) ≤ 3 * d + (operandOf op).depth :=
      Rule.depthAll_le_iff.2
        (List.forall_mem_map.2 fun link hl => ihs link (List.mem_cons_of_mem _ hl))
    have hsecond := ihs second List.mem_cons_self
    rw [Symbol.depth_chain, Rule.depth]
    omega

/-! ## Number of nodes -/

/-- Links have a token for each node, and their operators besides. -/
theorem sizeAll_le_of_links {links : List Link}
    (h : ∀ link ∈ links, link.rule.size ≤ link.tokens.length) :
    Rule.sizeAll (links.map Link.rule) + links.length ≤ (links.flatMap Link.span).length := by
  induction links with
  | nil => exact Nat.le_refl 0
  | cons link links ih =>
    obtain ⟨hlink, hlinks⟩ := List.forall_mem_cons.1 h
    have hle := ih hlinks
    simp only [List.map_cons, Rule.sizeAll, List.flatMap_cons, Link.span, List.length_append,
      List.length_cons] at hle ⊢
    omega

/-- Every node has a token of its own. -/
theorem Derives.size_le {symbol d ts rule} (h : Derives symbol d ts rule) :
    rule.size ≤ ts.length := by
  induction h with
  | literal => exact Nat.le_refl 1
  | field => exact Nat.le_refl 1
  | aggregate =>
    show 2 ≤ 4
    omega
  | group _ _ _ ih =>
    simp only [List.length_cons, List.length_append]
    omega
  | operand _ ih => exact ih
  | compare _ _ _ ihl ihr =>
    simp only [Rule.size, List.length_append, List.length_cons]
    omega
  | plain _ ih => exact ih
  | negation _ _ _ ih =>
    simp only [Rule.size, List.length_cons]
    omega
  | single _ ih => exact ih
  | @run _ _ _ _ second more _ _ _ _ _ ih ihs =>
    -- the first of the operators is the token of the junction itself
    have hlinks := @sizeAll_le_of_links (second :: more) ihs
    simp only [List.map_cons, Rule.sizeAll, List.length_cons] at hlinks
    rw [Rule.size, List.length_append]
    omega

/-- No symbol derives the empty list. -/
theorem Derives.length_pos {symbol d ts rule} (h : Derives symbol d ts rule) : 0 < ts.length := by
  have hnode : 0 < rule.size := by cases rule <;> simp only [Rule.size] <;> omega
  exact Nat.lt_of_lt_of_le hnode h.size_le

/-! ## Highest trees -/

/-- Two operands with their operator between them. -/
theorem Derives.pair (op : Junction) {d ts us first second} {joint : Token}
    (hf : Derives (operandOf op) d ts first) (hfc : first.isCondition = true)
    (hj : isLogic op.op joint = true)
    (hs : Derives (operandOf op) d us second) (hsc : second.isCondition = true) :
    Derives (.chain op) d (ts ++ joint :: us) (.junction op first second []) := by
  let link : Link := ⟨joint, us, second⟩
  have hrun := @Derives.run op d ts first link [] hf hfc (List.forall_mem_singleton.2 hj)
    (List.forall_mem_singleton.2 hs) (List.forall_mem_singleton.2 hsc)
  rwa [List.flatMap_singleton] at hrun

/-- With a disjunction, a conjunction and a comparison around it, what stands for an operand becomes
three levels higher. -/
theorem Derives.exists_deeper {d rs right} (h : Derives .atom d rs right) :
    ∃ ts rule, Derives (.chain .or) d ts rule ∧ rule.depth = right.depth + 3 := by
  let time : Token := ⟨.field, "TIME", 0⟩
  let sign : Token := ⟨.comparisonOp, "=", 0⟩
  have hfield : Derives .atom d [time] (.field .time) := .field rfl rfl
  have hsign : Compares sign .equal := ⟨rfl, by decide⟩
  have hlow : Derives .factor d [time, sign, time]
      (.comparison .equal (.field .time) (.field .time)) :=
    .plain (.compare hfield hsign hfield)
  have hhigh : Derives .factor d (time :: sign :: rs)
      (.comparison .equal (.field .time) right) :=
    .plain (.compare hfield hsign h)
  -- the operand itself goes last, each operator has the short comparison in front
  have hsingle : Derives (.chain .and) d _ _ := .single hlow
  have hand := Derives.pair .and hlow rfl
    (isLogic_iff.2 ⟨rfl, rfl⟩ : isLogic .and ⟨.logicOp, "AND", 0⟩ = true) hhigh rfl
  have hor := Derives.pair .or hsingle rfl
    (isLogic_iff.2 ⟨rfl, rfl⟩ : isLogic .or ⟨.logicOp, "OR", 0⟩ = true) hand rfl
  refine ⟨_, _, hor, ?_⟩
  have hpos : 1 ≤ right.depth := by
    cases right <;> simp only [Rule.depth] <;> omega
  simp only [Rule.depth, Rule.depthAll]
  omega

/-- Every limit on nesting can be used up so that the tree is as deep as it can be. -/
theorem exists_derives_depth (d : Nat) :
    ∃ ts rule, Derives (.chain .or) d ts rule ∧ rule.depth = 3 * d + 5 := by
  induction d with
  | zero =>
    have hcall : Derives .atom 0
        [⟨.aggregateFunction, "COUNT", 0⟩, ⟨.lparen, "(", 0⟩, ⟨.wildcard, "*", 0⟩, ⟨.rparen, ")", 0⟩]
        (.aggregate ⟨.count, .wildcard⟩) :=
      .aggregate rfl rfl rfl (.wildcard rfl) rfl
    obtain ⟨ts, rule, h, hdepth⟩ := hcall.exists_deeper
    exact ⟨ts, rule, h, hdepth⟩
  | succ d ih =>
    obtain ⟨us, inside, hin, hd⟩ := ih
    have hgroup : Derives .atom (d + 1)
        (⟨.lparen, "(", 0⟩ :: (us ++ [⟨.rparen, ")", 0⟩])) inside := .group rfl hin rfl
    obtain ⟨ts, rule, h, hdepth⟩ := hgroup.exists_deeper
    refine ⟨ts, rule, h, ?_⟩
    omega

/-! ## Rules that were read -/

/-- What is read off tokens is at most five levels deep, and three more for each level of nesting
that is allowed; expressions reach that depth whatever the limit. And it has no more nodes than there
are tokens. -/
theorem size_of_read (s : Setting) :
    (∀ ts rule, read s ts = .ok rule →
      rule.depth ≤ 3 * s.maxDepth + 5 ∧ rule.size ≤ ts.length) ∧
    (s.category = .composite →
      ∃ ts rule, read s ts = .ok rule ∧ rule.depth = 3 * s.maxDepth + 5) := by
  constructor
  · intro ts rule h
    obtain ⟨symbol, hd⟩ := (generates_of_read h).derives
    have hdepth := hd.depth_le
    have hsymbol := symbol.depth_le
    exact ⟨by omega, hd.size_le⟩
  · intro hcategory
    obtain ⟨ts, rule, h, hdepth⟩ := exists_derives_depth s.maxDepth
    have hread : read s ts = .ok rule := by
      rw [read_eq_ok_iff, hcategory]
      exact .composite h
    exact ⟨ts, rule, hread, hdepth⟩

/-- One group with everything that can stand in it and around it: the tree is as deep as it can be. -/
theorem size_of_read_group :
    ∃ ts rule,
      Token.scan "TIME = 1 OR TIME = 1 AND TIME = (TIME = 1 OR TIME = 1 AND SUM(AMOUNT) > 1)" =
        .ok ts ∧
      read ⟨.composite, 1, 0⟩ ts = .ok rule ∧ rule.depth = 3 * 1 + 5 ∧ rule.size = 22 ∧
      ts.length = 26 ∧ rule.depth ≤ 3 * 1 + 5 ∧ rule.size ≤ ts.length := by
  let short : Rule := .comparison .equal (.field .time) (.literal (.int32 1))
  let sum : Rule :=
    .comparison .greaterThan (.aggregate ⟨.sum, .field .amount⟩) (.literal (.int32 1))
  let inside : Rule := .junction .or short (.junction .and short sum []) []
  let rule : Rule := .junction .or short
    (.junction .and short (.comparison .equal (.field .time) inside) []) []
  have hrun : (Token.scan
      "TIME = 1 OR TIME = 1 AND TIME = (TIME = 1 OR TIME = 1 AND SUM(AMOUNT) > 1)").map
      (fun ts => (decide (read ⟨.composite, 1, 0⟩ ts = .ok rule), ts.length)) = .ok (true, 26) := by
    decide +kernel
  cases hscan : Token.scan
      "TIME = 1 OR TIME = 1 AND TIME = (TIME = 1 OR TIME = 1 AND SUM(AMOUNT) > 1)" with
  | error e =>
    rw [hscan] at hrun
    cases hrun
  | ok ts =>
    rw [hscan] at hrun
    obtain ⟨hread, hlength⟩ := Prod.mk.inj (Except.ok.inj hrun)
    have hread : read ⟨.composite, 1, 0⟩ ts = .ok rule := of_decide_eq_true hread
    obtain ⟨hdepth, hsize⟩ := (size_of_read _).1 ts rule hread
    have hdeep : rule.depth = 3 * 1 + 5 := by decide
    have hnodes : rule.size = 22 := by decide
    exact ⟨ts, rule, rfl, hread, hdeep, hnodes, hlength, hdepth, hsize⟩

end Screening.Grammar
