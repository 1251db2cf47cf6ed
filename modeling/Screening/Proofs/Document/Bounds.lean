import Screening.Proofs.Document.RoundTrip
import Screening.Proofs.Grammar.Reader
import Screening.Proofs.Rule.Equality

/-!
# Decoding makes nothing deeper

Whatever spelling a document uses, the rule decoded from it has a document of its own that is no
deeper: every way to spell a node enters as many arrays and objects as encoding it makes. So what was
read of a text can be stored and read again, and only its floats may come back as others.
-/

namespace Screening

/-! ## Heights of drafts -/

namespace Json

mutual

/-- How many arrays and objects enclose one another in the draft, itself included. -/
def Draft.height : Draft → Nat
  | .array items _ => 1 + draftHeightItems items
  | .object members _ => 1 + draftHeightMembers members
  | _ => 0

def draftHeightItems : List Draft → Nat
  | [] => 0
  | item :: rest => max item.height (draftHeightItems rest)

def draftHeightMembers : List (Option String × Draft) → Nat
  | [] => 0
  | (_, value) :: rest => max value.height (draftHeightMembers rest)

end

theorem draftHeightItems_le_iff {items : List Draft} {n : Nat} :
    draftHeightItems items ≤ n ↔ ∀ item ∈ items, item.height ≤ n := by
  induction items with
  | nil => simp [draftHeightItems]
  | cons item rest ih => simp only [draftHeightItems, Nat.max_le, List.forall_mem_cons, ih]

theorem draftHeightMembers_le_iff {members : List (Option String × Draft)} {n : Nat} :
    draftHeightMembers members ≤ n ↔ ∀ member ∈ members, member.2.height ≤ n := by
  induction members with
  | nil => simp [draftHeightMembers]
  | cons member rest ih => simp only [draftHeightMembers, Nat.max_le, List.forall_mem_cons, ih]

/-- A value is as high as its draft. -/
theorem height_draft (value : Json) : value.draft.height = value.height := by
  induction value with
  | array items ih =>
    have hitems : draftHeightItems (draftItems items) = heightItems items := by
      induction items with
      | nil => rfl
      | cons item rest ihrest =>
        obtain ⟨hitem, hrest⟩ := List.forall_mem_cons.1 ih
        rw [draftItems, draftHeightItems, heightItems, hitem, ihrest hrest]
    rw [draft, Draft.height, hitems, height]
  | object members ih =>
    have hmembers : draftHeightMembers (draftMembers members) = heightMembers members := by
      induction members with
      | nil => rfl
      | cons member rest ihrest =>
        obtain ⟨hmember, hrest⟩ := List.forall_mem_cons.1 ih
        rw [draftMembers, draftHeightMembers, heightMembers, hmember, ihrest hrest]
    rw [draft, Draft.height, hmembers, height]
  | _ => rfl

end Json

namespace Decode

open Json (Draft)

/-! ## Shapes -/

/-- What the decoder makes of a draft measures no more than the draft is high, and no more than there
is room for. -/
def Within {α : Type} (decoder : Decoder α) (measure : α → Nat) : Prop :=
  ∀ room draft a, decoder room draft = .ok a → measure a ≤ min room draft.height

section

variable {α β : Type} {decoder : Decoder α} {measure : α → Nat}

theorem within_zero (decoder : Decoder α) : Within decoder fun _ => 0 :=
  fun _ _ _ _ => Nat.zero_le _

theorem ok_of_map {ε : Type} {f : α → β} {outcome : Except ε α} {b : β}
    (h : outcome.map f = .ok b) : ∃ a, outcome = .ok a ∧ f a = b := by
  cases outcome with
  | error e => cases h
  | ok a => exact ⟨a, rfl, Except.ok.inj h⟩

theorem Within.map (h : Within decoder measure) {f : α → β} {total : β → Nat}
    (hf : ∀ a, total (f a) ≤ measure a) :
    Within (fun room draft => (decoder room draft).map f) total := by
  intro room draft b hb
  obtain ⟨a, ha, rfl⟩ := ok_of_map hb
  exact Nat.le_trans (hf a) (h room draft a ha)

end

/-- An alternative that has a body takes one level more than the body. -/
theorem Within.variant {τ α : Type} [Named τ] {source : Source} {bare : τ → Except DecodeFault α}
    {body : τ → Decoder α} (measure : α → Nat) {total : α → Nat} (hbare : ∀ tag a, bare tag ≠ .ok a)
    (hbody : ∀ tag, Within (body tag) measure) (htotal : ∀ a, total a ≤ measure a + 1) :
    Within (variant source bare body) total := by
  intro room draft a h
  unfold Decode.variant at h
  split at h
  · obtain ⟨tag, -, h⟩ := bind_eq_ok.1 h
    exact absurd h (hbare tag a)
  · rename_i room name value others closed
    split at h
    · cases h
    · obtain ⟨tag, -, h⟩ := bind_eq_ok.1 h
      obtain ⟨b, hb, h⟩ := bind_eq_ok.1 h
      split at h
      · cases h
        have := hbody tag room value a hb
        have := htotal a
        simp only [Draft.height, Json.draftHeightMembers]
        omega
      · cases h
  · cases h

section

variable {φ σ α : Type} {room : Nat} {step : σ → φ → Draft → Except DecodeFault σ}
  {measure : σ → Nat}

/-- Each part that is found adds no more levels than its draft has, and no more than there is room
for. -/
def StepsWithin (room : Nat) (step : σ → φ → Draft → Except DecodeFault σ) (measure : σ → Nat) :
    Prop :=
  ∀ parts f draft next, step parts f draft = .ok next →
    measure next ≤ max (measure parts) (min room draft.height)

theorem named_within [Named φ] (hstep : StepsWithin room step measure) {seen : List String}
    {parts last : σ} {members : List (Option String × Draft)}
    (h : named step seen parts members = .ok last) :
    measure last ≤ max (measure parts) (min room (Json.draftHeightMembers members)) := by
  fun_induction named step seen parts members with
  | case1 seen parts =>
    cases h
    exact Nat.le_max_left _ _
  | case2 => cases h
  | case3 => cases h
  | case4 seen parts key value rest f hf hseen ih =>
    obtain ⟨next, hnext, h⟩ := bind_eq_ok.1 h
    have := hstep parts f value next hnext
    have := ih next h
    rw [Json.draftHeightMembers]
    omega
  | case5 seen parts key value rest hf hcomplete ih =>
    have := ih h
    rw [Json.draftHeightMembers]
    omega
  | case6 => cases h

theorem positional_within (hstep : StepsWithin room step measure) {fs : List φ} {parts last : σ}
    {items : List Draft} (h : positional step fs parts items = .ok last) :
    measure last ≤ max (measure parts) (min room (Json.draftHeightItems items)) := by
  induction items generalizing fs parts with
  | nil =>
    cases fs with
    | nil =>
      cases h
      exact Nat.le_max_left _ _
    | cons f fs => cases h
  | cons item rest ih =>
    cases fs with
    | nil => cases h
    | cons f fs =>
      obtain ⟨next, hnext, h⟩ := bind_eq_ok.1 h
      have := hstep parts f item next hnext
      have := ih h
      rw [Json.draftHeightItems]
      omega

/-- A record takes one level more than its parts. -/
theorem Within.record [Named φ] (measure : σ → Nat) {start : σ}
    {step : (room : Nat) → σ → φ → Draft → Except DecodeFault σ} {finish : σ → Except DecodeFault α}
    {total : α → Nat} (hstart : measure start = 0)
    (hstep : ∀ room, StepsWithin room (step room) measure)
    (hfinish : ∀ parts a, finish parts = .ok a → total a ≤ measure parts + 1) :
    Within (record start step finish) total := by
  intro room draft a h
  unfold Decode.record at h
  split at h
  · rename_i room members closed
    obtain ⟨parts, hparts, h⟩ := bind_eq_ok.1 h
    have hle := named_within (hstep room) hparts
    split at h
    · have := hfinish parts a h
      simp only [Draft.height]
      omega
    · cases h
  · rename_i room items closed
    obtain ⟨parts, hparts, h⟩ := bind_eq_ok.1 h
    have hle := positional_within (hstep room) hparts
    split at h
    · have := hfinish parts a h
      simp only [Draft.height]
      omega
    · cases h
  · cases h

end

section

variable {α : Type} {item : Decoder α}

theorem mapM_within {measure : α → Nat} (hitem : Within item measure) {room : Nat}
    {items : List Draft} {xs : List α} (h : items.mapM (item room) = .ok xs) :
    ∀ x ∈ xs, measure x ≤ min room (Json.draftHeightItems items) := by
  induction items generalizing xs with
  | nil =>
    cases h
    exact fun x hx => absurd hx List.not_mem_nil
  | cons draft rest ih =>
    rw [List.mapM_cons] at h
    obtain ⟨x, hx, h⟩ := bind_eq_ok.1 h
    obtain ⟨ys, hys, h⟩ := bind_eq_ok.1 h
    cases h
    have hhead := hitem room draft x hx
    rw [Json.draftHeightItems]
    refine List.forall_mem_cons.2 ⟨by omega, fun y hy => ?_⟩
    have := ih hys y hy
    omega

/-- A sequence takes one level more than the highest of its items. -/
theorem Within.sequence {measure : α → Nat} (hitem : Within item measure)
    {total : List α → Nat}
    (htotal : ∀ n xs, (∀ x ∈ xs, measure x ≤ n) → total xs ≤ n + 1) :
    Within (sequence item) total := by
  intro room draft xs h
  unfold Decode.sequence at h
  split at h
  · rename_i room items closed
    obtain ⟨ys, hys, h⟩ := bind_eq_ok.1 h
    split at h
    · cases h
      have := htotal _ _ (mapM_within hitem hys)
      simp only [Draft.height]
      omega
    · cases h
  · cases h

end

/-! ## Parts of rules -/

variable {source : Source}

theorem within_literal : Within (literal source) fun _ => 1 :=
  Within.variant (fun _ => 0) (fun _ _ h => nomatch h) (fun _ => within_zero _)
    fun _ => Nat.le_refl 1

theorem within_fieldRef : Within (fieldRef source) fun _ => 1 :=
  Within.record (fun _ => 0) rfl (fun _ _ _ _ _ _ => Nat.zero_le _) fun _ _ _ => Nat.le_refl 1

theorem within_wildcardBody : Within (wildcardBody source) fun _ => 1 := by
  intro room draft a h
  unfold wildcardBody at h
  split at h
  · simp only [Draft.height]
    omega
  · simp only [Draft.height]
    omega
  · cases h

theorem within_aggregateOperand : Within (aggregateOperand source) fun _ => 2 := by
  refine Within.variant (fun _ => 1) (fun _ _ h => nomatch h) (fun tag => ?_) fun _ => Nat.le_refl 2
  cases tag with
  | field => exact within_fieldRef.map fun _ => Nat.le_refl 1
  | wildcard => exact within_wildcardBody.map fun _ => Nat.le_refl 1

theorem eq_some_of_need {φ α : Type} [Named φ] {key : φ} {found : Option α} {a : α}
    (h : need key found = .ok a) : found = some a := by
  cases found with
  | none => cases h
  | some b => exact congrArg some (Except.ok.inj h)

/-- The levels of the parts of an aggregate that were found. -/
def AggregateParts.height (parts : AggregateParts) : Nat := if parts.operand.isSome then 2 else 0

theorem within_aggregate : Within (aggregate source) fun _ => 3 := by
  refine Within.record AggregateParts.height rfl (fun room parts f draft next h => ?_)
    fun parts a h => ?_
  · cases f with
    | function =>
      obtain ⟨x, -, rfl⟩ := ok_of_map h
      exact Nat.le_max_left _ _
    | operand =>
      obtain ⟨x, hx, rfl⟩ := ok_of_map h
      exact Nat.le_trans (within_aggregateOperand room draft x hx) (Nat.le_max_right _ _)
  · obtain ⟨function, -, h⟩ := bind_eq_ok.1 h
    obtain ⟨operand, hoperand, -⟩ := bind_eq_ok.1 h
    simp [AggregateParts.height, eq_some_of_need hoperand]

/-! ## Rules -/

section

variable {inner : Decoder Rule}

/-- The height of a part that may not have been found yet. -/
def heightOf {α : Type} (height : α → Nat) (found : Option α) : Nat := (found.map height).getD 0

/-- The levels of the sides of a comparison that were found. -/
def ComparisonParts.height (parts : ComparisonParts) : Nat :=
  max (heightOf Rule.documentHeight parts.left) (heightOf Rule.documentHeight parts.right)

theorem within_comparison (hinner : Within inner Rule.documentHeight) :
    Within (comparison source inner) fun a => a.documentHeight - 1 := by
  refine Within.record ComparisonParts.height rfl (fun room parts f draft next h => ?_)
    fun parts a h => ?_
  · cases f with
    | operator =>
      obtain ⟨x, -, rfl⟩ := ok_of_map h
      exact Nat.le_max_left _ _
    | left =>
      obtain ⟨x, hx, rfl⟩ := ok_of_map h
      have := hinner room draft x hx
      simp only [ComparisonParts.height, heightOf, Option.map_some, Option.getD_some]
      omega
    | right =>
      obtain ⟨x, hx, rfl⟩ := ok_of_map h
      have := hinner room draft x hx
      simp only [ComparisonParts.height, heightOf, Option.map_some, Option.getD_some]
      omega
  · obtain ⟨op, -, h⟩ := bind_eq_ok.1 h
    obtain ⟨left, hleft, h⟩ := bind_eq_ok.1 h
    obtain ⟨right, hright, h⟩ := bind_eq_ok.1 h
    cases h
    simp only [ComparisonParts.height, heightOf, eq_some_of_need hleft, eq_some_of_need hright,
      Option.map_some, Option.getD_some, Rule.documentHeight]
    omega

/-- The levels of the list of operands, if it was found. -/
def LogicalParts.height (parts : LogicalParts) : Nat :=
  heightOf (fun operands => Rule.documentHeightAll operands + 1) parts.operands

theorem logical?_of_ofOperands {op : LogicOp} {operands : List Rule} {a : Rule}
    (h : Rule.ofOperands op operands = .ok a) : a.logical? = some (op, operands) := by
  unfold Rule.ofOperands at h
  split at h <;> cases h <;> rfl

theorem within_logical (hinner : Within inner Rule.documentHeight) :
    Within (logical source inner) fun a => a.documentHeight - 1 := by
  refine Within.record LogicalParts.height rfl (fun room parts f draft next h => ?_)
    fun parts a h => ?_
  · cases f with
    | operator =>
      obtain ⟨x, -, rfl⟩ := ok_of_map h
      exact Nat.le_max_left _ _
    | operands =>
      obtain ⟨xs, hxs, rfl⟩ := ok_of_map h
      have hall : Within (sequence inner) fun operands => Rule.documentHeightAll operands + 1 :=
        hinner.sequence fun n xs h => Nat.add_le_add_right (Rule.documentHeightAll_le_iff.2 h) 1
      exact Nat.le_trans (hall room draft xs hxs) (Nat.le_max_right _ _)
  · obtain ⟨op, -, h⟩ := bind_eq_ok.1 h
    obtain ⟨operands, hoperands, h⟩ := bind_eq_ok.1 h
    simp only [Rule.documentHeight_of_logical? (logical?_of_ofOperands (mapError_eq_ok.1 h)),
      LogicalParts.height, heightOf, eq_some_of_need hoperands, Option.map_some, Option.getD_some]
    omega

theorem within_ruleWith (hinner : Within inner Rule.documentHeight) :
    Within (ruleWith source inner) Rule.documentHeight := by
  refine Within.variant (fun a => a.documentHeight - 1) (fun _ _ h => nomatch h) (fun tag => ?_)
    fun a => by omega
  cases tag with
  | literal => exact within_literal.map fun _ => Nat.le_refl 1
  | field => exact within_fieldRef.map fun _ => Nat.le_refl 1
  | wildcard => exact within_wildcardBody.map fun _ => Nat.le_refl 1
  | aggregate => exact within_aggregate.map fun _ => Nat.le_refl 3
  | comparison => exact within_comparison hinner
  | logical => exact within_logical hinner

end

theorem within_ruleAt (levels : Nat) : Within (ruleAt source levels) Rule.documentHeight := by
  induction levels with
  | zero =>
    intro room draft a h
    cases h
  | succ levels ih => exact within_ruleWith ih

/-- The document of a decoded rule has no more levels than the draft it was decoded from. -/
theorem within_rule : Within (rule source) Rule.documentHeight :=
  fun room => within_ruleAt (room + 1) room

end Decode

namespace Rule

section

variable {floats : Json.FloatReading} {text : String} {rule : Rule}

/-- A rule is read of a text if nothing follows the draft at its front and the draft is one of a
rule. -/
theorem ofJsonText_eq_ok_iff :
    ofJsonText text floats = .ok rule ↔ (Json.readDraft text floats).2 = true ∧
      Decode.rule .text Json.maxNesting (Json.readDraft text floats).1 = .ok rule := by
  simp only [ofJsonText, Decode.ofText, bind_eq_ok]
  constructor
  · rintro ⟨a, ha, hends⟩
    split at hends
    · rename_i hclosed
      obtain rfl : a = rule := Except.ok.inj hends
      exact ⟨hclosed, ha⟩
    · cases hends
  · rintro ⟨hends, hrule⟩
    exact ⟨rule, hrule, by rw [if_pos hends]; rfl⟩

/-- Of a text no rule is read whose document would be deeper than the text, or too deep to read. -/
theorem documentHeight_le_of_ofJsonText (h : ofJsonText text floats = .ok rule) :
    rule.documentHeight ≤ min Json.maxNesting (Json.readDraft text floats).1.height :=
  Decode.within_rule _ _ _ (ofJsonText_eq_ok_iff.1 h).2

/-- A rule that was read of a text can be stored and read again, and what is stored has no more levels
than the text. -/
theorem reload_of_rereads {f : Number.Binary64 → Number.Binary64} (hf : floats.Rereads f)
    (h : ofJsonText text floats = .ok rule) :
    ofJsonText rule.jsonText floats = .ok (rule.mapFloats f) ∧
      (Json.readDraft rule.jsonText floats).1.height ≤ (Json.readDraft text floats).1.height := by
  have hle := documentHeight_le_of_ofJsonText h
  constructor
  · rw [ofJsonText_jsonText hf, if_pos (by omega)]
  · rw [readDraft_jsonText hf, Json.height_draft, height_encode, documentHeight_mapFloats]
    omega

end

open Json.FloatReading (reread rereads_bestEffort same_reread)

/-- A rule whose floats are all written with few digits can be stored and read again as it is. -/
theorem reload_of_few {text : String} {rule : Rule} (h : ofJsonText text = .ok rule)
    (hfew : ∀ x, .literal (.float x) ∈ rule.nodes → ∃ parts, Json.FloatReading.Written x parts ∧
      Json.FloatReading.Few parts.whole parts.fraction parts.exponent) :
    ofJsonText rule.jsonText = .ok rule := by
  have hreload := (reload_of_rereads rereads_bestEffort h).1
  rwa [mapFloats_eq_self] at hreload
  intro x hx
  obtain ⟨parts, hparts, hdigits⟩ := hfew x hx
  exact Json.FloatReading.reread_eq_self hparts hdigits

/-- A rule that was read of a text can be stored and read again, whatever spelling the text uses, and
what is stored has no more levels than the text. Each float comes back as what the best effort makes
of its own text, so the rule is an equal one exactly if that is the float itself. What is stored does
not lack anything, since correct rounding would read the same rule of it. -/
theorem reload_jsonText {text : String} {rule : Rule} (h : ofJsonText text = .ok rule) :
    ofJsonText rule.jsonText = .ok (rule.mapFloats reread) ∧
      ((rule.mapFloats reread).same rule = true ↔
        ∀ x, .literal (.float x) ∈ rule.nodes → reread x = x) ∧
      (Json.readDraft rule.jsonText).1.height ≤ (Json.readDraft text).1.height ∧
      ∀ floats : Json.FloatReading, floats.CorrectlyRounded →
        ofJsonText rule.jsonText floats = .ok rule := by
  obtain ⟨hreload, hheight⟩ := reload_of_rereads rereads_bestEffort h
  have hle := documentHeight_le_of_ofJsonText h
  refine ⟨hreload, same_mapFloats same_reread rule, hheight, fun floats hfloats => ?_⟩
  exact (ofJsonText_jsonText_eq_ok_iff hfloats rule).2 (hle.trans (Nat.min_le_left _ _))

/-- A text with a blank, an escape, an unknown member, members in another order, a body as an array,
a name as an object and a whole number for a binary64 number. -/
def oddText : String :=
  "\x7b\"comparison\": \x7b\"x\":[],\"right\":\x7b\"literal\":\x7b\"float_value\":5\x7d\x7d," ++
    "\"left\":\x7b\"field\":[\"TIME\"]\x7d,\"operator\":\x7b\"\\u0045QUAL\":null\x7d\x7d\x7d"

/-- The rule that the odd text stands for. -/
def oddRule : Rule :=
  .comparison .equal (.field .time)
    (.literal (.float ⟨false, 5629499534213120, 1024, by decide, by decide, .inr (by decide)⟩))

theorem reload_oddText :
    ofJsonText oddText = .ok oddRule ∧ ofJsonText oddRule.jsonText = .ok oddRule ∧
      (Json.readDraft oddRule.jsonText).1.height ≤ (Json.readDraft oddText).1.height := by
  have h : ofJsonText oddText = .ok oddRule := by decide +kernel
  have hfloats : oddRule.mapFloats reread = oddRule := by decide +kernel
  obtain ⟨hreload, -, hheight, -⟩ := reload_jsonText h
  rw [hfloats] at hreload
  exact ⟨h, hreload, hheight⟩

/-- A text that is read as the smallest number above one hundred. The number is stored with seventeen
digits, and of these the best effort reads one hundred. -/
theorem not_reload_aboveHundred :
    ∃ rule again : Rule,
      ofJsonText "\x7b\"literal\":\x7b\"float_value\":100.000000000000014\x7d\x7d" = .ok rule ∧
        ofJsonText rule.jsonText = .ok again ∧ again.same rule = false :=
  ⟨aboveHundred,
    .literal (.float ⟨false, 0x19000000000000, 1028, by decide, by decide, .inr (by decide)⟩),
    by decide +kernel, by decide +kernel, by decide⟩

end Rule

end Screening
