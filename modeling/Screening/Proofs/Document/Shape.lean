import Screening.Document.Shape

/-!
# Decoding by shape

What the decoders of alternatives, records and sequences make of the drafts that they are meant for,
given what the decoders of the parts make of the parts. A draft that is deeper than there is room for
is refused as a whole, whichever of its parts is too deep.

A decoder asks the decoders of parts only with less room than it has itself.
-/

namespace Screening

namespace Decode

open Json (Draft)

/-- The decoder makes `a` of the draft if there is room for `height` levels, and refuses it
otherwise. -/
def Decodes {α : Type} (decoder : Decoder α) (draft : Draft) (height : Nat) (a : α) : Prop :=
  ∀ room, decoder room draft = if height ≤ room then .ok a else .error .malformed

section

variable {α β : Type} {decoder : Decoder α} {draft : Draft} {height : Nat} {a : α}

/-- What needs no room at all is decoded always. -/
theorem decodes_zero : Decodes decoder draft 0 a ↔ ∀ room, decoder room draft = .ok a := by
  simp [Decodes]

/-- A decoder that enters the draft has one level less for what is inside. -/
theorem decodes_succ (hzero : decoder 0 draft = .error .malformed)
    (hsucc : ∀ room, decoder (room + 1) draft =
      if height ≤ room then .ok a else .error .malformed) :
    Decodes decoder draft (height + 1) a := by
  intro room
  cases room with
  | zero => rw [hzero, if_neg (Nat.not_succ_le_zero height)]
  | succ room => simp only [hsucc room, Nat.add_le_add_iff_right]

theorem Decodes.map (h : Decodes decoder draft height a) (f : α → β) :
    Decodes (fun room draft => (decoder room draft).map f) draft height (f a) := by
  intro room
  simp only [h room]
  split <;> rfl

end

/-! ## Alternatives -/

section

variable {τ α : Type} [Named τ] {source : Source}

@[simp] theorem tagOf_name (tag : τ) : tagOf τ (Named.name tag) = .ok tag := by simp [tagOf]

/-- An object with one member takes one level more than the member. -/
theorem Decodes.variant {bare : τ → Except DecodeFault α} {body : τ → Decoder α} (tag : τ)
    {draft : Draft} {height total : Nat} {a : α} (h : Decodes (body tag) draft height a)
    (htotal : height + 1 = total) :
    Decodes (variant source bare body) (.object [(some (Named.name tag), draft)] true) total a := by
  subst htotal
  refine decodes_succ rfl fun room => ?_
  simp only [Decode.variant, List.isEmpty_nil, Bool.not_true, Bool.false_eq_true, and_false,
    if_false, tagOf_name, Bool.true_and, if_true, bind, Except.bind, h room]
  by_cases hroom : height ≤ room
  · simp only [if_pos hroom]
    rfl
  · simp only [if_neg hroom]

theorem decodes_name {α : Type} [Named α] (a : α) :
    Decodes (name α source) (.string (some (Named.name a))) 0 a := by
  refine decodes_zero.2 fun room => ?_
  simp [name, variant, bind, Except.bind]

theorem variant_congr {bare : τ → Except DecodeFault α} {body body' : τ → Decoder α} {room : Nat}
    (h : ∀ tag, ∀ r < room, body tag r = body' tag r) :
    variant source bare body room = variant source bare body' room := by
  funext draft
  unfold variant
  split
  · rfl
  · simp only [h _ _ (Nat.lt_succ_self _)]
  · rfl

end

/-! ## Records -/

section

variable {φ σ α : Type} [Named φ]
  {step step' : (room : Nat) → σ → φ → Draft → Except DecodeFault σ}

/-- Going through these members takes a record's parts from the first to the last, if there is room
for `height` levels. -/
inductive Collects (step : (room : Nat) → σ → φ → Draft → Except DecodeFault σ) :
    σ → List (φ × Draft) → Nat → σ → Prop
  | nil (parts : σ) : Collects step parts [] 0 parts
  | cons (f : φ) {parts next last : σ} {draft : Draft} {rest : List (φ × Draft)}
      {height height' : Nat} (head : Decodes (fun room => step room parts f) draft height next)
      (tail : Collects step next rest height' last) :
      Collects step parts ((f, draft) :: rest) (max height height') last

/-- A member of an object, named for a part. -/
def member (part : φ × Draft) : Option String × Draft := (some (Named.name part.1), part.2)

theorem Collects.named {parts last : σ} {members : List (φ × Draft)} {height : Nat}
    (h : Collects step parts members height last) (hkeys : (members.map Prod.fst).Nodup)
    {seen : List String} (hseen : ∀ part ∈ members, Named.name part.1 ∉ seen) (room : Nat) :
    named (step room) seen parts (members.map member) =
      if height ≤ room then .ok last else .error .malformed := by
  induction h generalizing seen with
  | nil parts => simp [Decode.named]
  | @cons f parts next last draft rest height height' head tail ih =>
    obtain ⟨hf, hrest⟩ := List.nodup_cons.1 hkeys
    obtain ⟨hnew, hseen⟩ := List.forall_mem_cons.1 hseen
    have hseen' : ∀ part ∈ rest, Named.name part.1 ∉ Named.name f :: seen := by
      intro part hpart hmem
      rcases List.mem_cons.1 hmem with heq | hmem
      · exact hf (List.mem_map.2 ⟨part, hpart, Named.name_injective _ _ heq⟩)
      · exact hseen part hpart hmem
    simp only [List.map_cons, member, Decode.named, Named.find?_name, List.contains_eq_mem, hnew,
      decide_false, Bool.false_eq_true, if_false, head room, Nat.max_le]
    by_cases hle : height ≤ room
    · simpa [hle, bind, Except.bind] using ih hrest hseen'
    · simp [hle, bind, Except.bind]

/-- An object takes one level more than the highest of its members. -/
theorem Decodes.record {start : σ} {finish : σ → Except DecodeFault α} {height total : Nat} {a : α}
    (members : List (φ × Draft)) (last : σ) (h : Collects step start members height last)
    (hkeys : (members.map Prod.fst).Nodup) (hfinish : finish last = .ok a)
    (htotal : height + 1 = total) :
    Decodes (record start step finish) (.object (members.map member) true) total a := by
  subst htotal
  refine decodes_succ rfl fun room => ?_
  simp only [Decode.record, h.named hkeys (fun _ _ => List.not_mem_nil) room, if_true]
  split
  · exact hfinish
  · rfl

theorem record_congr {start : σ} {finish : σ → Except DecodeFault α} {room : Nat}
    (h : ∀ r < room, step r = step' r) :
    record start step finish room = record start step' finish room := by
  funext draft
  unfold record
  split
  · rw [h _ (Nat.lt_succ_self _)]
  · rw [h _ (Nat.lt_succ_self _)]
  · rfl

end

/-! ## Sequences -/

section

variable {α : Type} {item item' : Decoder α}

theorem mapM_decodes {draftOf : α → Draft} {heightOf : α → Nat} {xs : List α}
    (h : ∀ x ∈ xs, Decodes item (draftOf x) (heightOf x) x) (room : Nat) :
    (xs.map draftOf).mapM (item room) =
      if ∀ x ∈ xs, heightOf x ≤ room then .ok xs else .error .malformed := by
  induction xs with
  | nil => simp [pure, Except.pure]
  | cons x xs ih =>
    obtain ⟨hx, hxs⟩ := List.forall_mem_cons.1 h
    simp only [List.map_cons, List.mapM_cons, hx room, ih hxs, List.forall_mem_cons]
    by_cases hle : heightOf x ≤ room
    · by_cases hall : ∀ x ∈ xs, heightOf x ≤ room
      · simp only [if_pos hle, if_pos hall, if_pos (And.intro hle hall)]
        rfl
      · simp only [if_pos hle, if_neg hall, if_neg fun h : _ ∧ _ => hall h.2]
        rfl
    · simp only [if_neg hle, if_neg fun h : _ ∧ _ => hle h.1]
      rfl

/-- An array takes one level more than the highest of its items. -/
theorem Decodes.sequence {draftOf : α → Draft} {heightOf : α → Nat} {xs : List α} {height : Nat}
    (hheight : ∀ n, height ≤ n ↔ ∀ x ∈ xs, heightOf x ≤ n)
    (h : ∀ x ∈ xs, Decodes item (draftOf x) (heightOf x) x) :
    Decodes (sequence item) (.array (xs.map draftOf) true) (height + 1) xs := by
  refine decodes_succ rfl fun room => ?_
  simp only [Decode.sequence, mapM_decodes h room, ← hheight, if_true]
  split <;> rfl

theorem sequence_congr {room : Nat} (h : ∀ r < room, item r = item' r) :
    sequence item room = sequence item' room := by
  funext draft
  unfold sequence
  split
  · rw [h _ (Nat.lt_succ_self _)]
  · rfl

end

end Decode

end Screening
