import Mathlib.Data.List.Forall2
import Mathlib.Data.List.Nodup
import Screening.Proofs.Document.Bounds

/-!
# What decoders accept

A decoder by shape seen from its answer. An alternative is decoded from an object with one member, a
sequence from an array, and a record from a body that holds each of its parts once: in which order,
among which other members, and whether as members or as items does not matter.
-/

namespace Screening

namespace Decode

open Json (Draft)

variable {source : Source}

/-! ## Alternatives -/

section

variable {τ α : Type} [Named τ]

/-- An object whose one member is named for an alternative. -/
def alternative (tag : τ) (body : Draft) : Draft := .object [(some (Named.name tag), body)] true

theorem alternative_inj {tag tag' : τ} {body body' : Draft} :
    alternative tag body = alternative tag' body' ↔ tag = tag' ∧ body = body' := by
  simp [alternative, name_inj]

theorem tagOf_eq_ok {name : String} {tag : τ} : tagOf τ name = .ok tag ↔ Named.name tag = name := by
  rw [tagOf, ← Named.find?_eq_some_iff]
  cases (Named.find? name : Option τ) <;> simp

/-- An alternative is decoded from its name alone or from an object with one member. -/
theorem variant_eq_ok_iff {bare : τ → Except DecodeFault α} {body : τ → Decoder α} {room : Nat}
    {draft : Draft} {a : α} :
    variant source bare body room draft = .ok a ↔
      (∃ tag, draft = .string (some (Named.name tag)) ∧ bare tag = .ok a) ∨
        ∃ tag inside r, room = r + 1 ∧ draft = alternative tag inside ∧
          body tag r inside = .ok a := by
  constructor
  · intro h
    unfold variant at h
    split at h
    · obtain ⟨tag, htag, hbare⟩ := bind_eq_ok.1 h
      exact .inl ⟨tag, by rw [tagOf_eq_ok.1 htag], hbare⟩
    · rename_i r name inside others closed
      split at h
      · cases h
      · obtain ⟨tag, htag, hrest⟩ := bind_eq_ok.1 h
        obtain ⟨b, hb, hend⟩ := bind_eq_ok.1 hrest
        split at hend
        · rename_i hclosed
          simp only [Bool.and_eq_true, List.isEmpty_iff] at hclosed
          obtain rfl : b = a := Except.ok.inj hend
          obtain rfl := tagOf_eq_ok.1 htag
          obtain ⟨rfl, rfl⟩ := hclosed
          exact .inr ⟨tag, inside, r, rfl, rfl, hb⟩
        · cases hend
    · cases h
  · rintro (⟨tag, rfl, hbare⟩ | ⟨tag, inside, r, rfl, rfl, hb⟩)
    · simp [variant, hbare]
    · simp [variant, alternative, hb]

/-- An alternative that has a body is decoded from an object with one member. -/
theorem tagged_eq_ok_iff {body : τ → Decoder α} {room : Nat} {draft : Draft} {a : α} :
    variant source (fun _ => .error .malformed) body room draft = .ok a ↔
      ∃ tag inside r, room = r + 1 ∧ draft = alternative tag inside ∧ body tag r inside = .ok a := by
  simp [variant_eq_ok_iff]

/-- A name stands alone, or as the key of an object whose value is null. -/
theorem name_eq_ok_iff {room : Nat} {draft : Draft} {a : τ} :
    name τ source room draft = .ok a ↔
      draft = .string (some (Named.name a)) ∨ room ≠ 0 ∧ draft = alternative a .null := by
  rw [name, variant_eq_ok_iff]
  constructor
  · rintro (⟨tag, rfl, htag⟩ | ⟨tag, inside, r, rfl, rfl, hinside⟩)
    · obtain rfl : tag = a := Except.ok.inj htag
      exact .inl rfl
    · cases inside with
      | null =>
        obtain rfl : tag = a := Except.ok.inj hinside
        exact .inr ⟨Nat.succ_ne_zero r, rfl⟩
      | _ => cases hinside
  · rintro (rfl | ⟨hroom, rfl⟩)
    · exact .inl ⟨a, rfl, rfl⟩
    · obtain ⟨r, rfl⟩ := Nat.exists_eq_succ_of_ne_zero hroom
      exact .inr ⟨a, .null, r, rfl, rfl, rfl⟩

end

/-! ## Sequences -/

theorem forall₂_mem_left {α β : Type} {R : α → β → Prop} {as : List α} {bs : List β}
    (h : List.Forall₂ R as bs) {a : α} (ha : a ∈ as) : ∃ b ∈ bs, R a b := by
  induction h with
  | nil => cases ha
  | cons head tail ih =>
    cases ha with
    | head => exact ⟨_, List.mem_cons_self, head⟩
    | tail _ ha =>
      obtain ⟨b, hb, hab⟩ := ih ha
      exact ⟨b, List.mem_cons_of_mem _ hb, hab⟩

theorem mapM_eq_ok_iff {ε α β : Type} {f : α → Except ε β} {items : List α} {xs : List β} :
    items.mapM f = .ok xs ↔ List.Forall₂ (fun item x => f item = .ok x) items xs := by
  induction items generalizing xs with
  | nil =>
    rw [List.forall₂_nil_left_iff]
    exact ⟨fun h => (Except.ok.inj h).symm, fun h => h ▸ rfl⟩
  | cons item rest ih =>
    rw [List.mapM_cons]
    constructor
    · intro h
      obtain ⟨x, hx, h⟩ := bind_eq_ok.1 h
      obtain ⟨ys, hys, h⟩ := bind_eq_ok.1 h
      obtain rfl : x :: ys = xs := Except.ok.inj h
      exact .cons hx (ih.1 hys)
    · intro h
      cases h with
      | cons hx hys =>
        rw [hx, ih.2 hys]
        rfl

/-- A sequence is decoded from an array, item by item. -/
theorem sequence_eq_ok_iff {α : Type} {item : Decoder α} {room : Nat} {draft : Draft}
    {xs : List α} :
    sequence item room draft = .ok xs ↔
      ∃ items r, room = r + 1 ∧ draft = .array items true ∧
        List.Forall₂ (fun draft x => item r draft = .ok x) items xs := by
  constructor
  · intro h
    unfold sequence at h
    split at h
    · rename_i r items closed
      obtain ⟨ys, hys, hend⟩ := bind_eq_ok.1 h
      split at hend
      · rename_i hclosed
        obtain rfl : ys = xs := Except.ok.inj hend
        subst hclosed
        exact ⟨items, r, rfl, rfl, mapM_eq_ok_iff.1 hys⟩
      · cases hend
    · cases h
  · rintro ⟨items, r, rfl, rfl, h⟩
    simp only [sequence, mapM_eq_ok_iff.2 h, if_true]
    rfl

/-! ## Collecting parts -/

section

variable {φ σ α : Type}

/-- Takes parts one after the other. -/
def collect (step : σ → φ → Draft → Except DecodeFault σ) (parts : σ) (found : List (φ × Draft)) :
    Except DecodeFault σ :=
  found.foldlM (fun parts part => step parts part.1 part.2) parts

/-- A form of record: slots for its parts, which are empty at first, and what is made of the slots in
the end, when all of them must be filled. -/
structure Form (φ σ α : Type) (τ : φ → Type) where
  start : σ
  get : (f : φ) → σ → Option (τ f)
  set : (f : φ) → σ → τ f → σ
  finish : σ → Except DecodeFault α
  get_start : ∀ f, get f start = none
  get_set_self : ∀ f parts x, get f (set f parts x) = some x
  get_set_of_ne : ∀ f g parts x, g ≠ f → get g (set f parts x) = get g parts
  ext : ∀ parts parts', (∀ f, get f parts = get f parts') → parts = parts'
  exists_get : ∀ parts a, finish parts = .ok a → ∀ f, ∃ x, get f parts = some x

namespace Form

variable {τ : φ → Type} (F : Form φ σ α τ)

/-- Decodes a part and puts it into its slot. -/
def step (decode : (f : φ) → Decoder (τ f)) (room : Nat) (parts : σ) (f : φ) (draft : Draft) :
    Except DecodeFault σ :=
  (decode f room draft).map (F.set f parts)

/-- If no part comes twice, collecting them fills the slots of these parts and no others. -/
theorem collect_eq_ok_iff {decode : (f : φ) → Decoder (τ f)} {room : Nat} {parts last : σ}
    {found : List (φ × Draft)} (honce : (found.map Prod.fst).Nodup) :
    collect (F.step decode room) parts found = .ok last ↔
      (∀ part ∈ found, ∃ x, decode part.1 room part.2 = .ok x ∧ F.get part.1 last = some x) ∧
        ∀ f, f ∉ found.map Prod.fst → F.get f last = F.get f parts := by
  induction found generalizing parts with
  | nil =>
    constructor
    · intro h
      obtain rfl : parts = last := Except.ok.inj h
      simp
    · intro h
      rw [F.ext last parts fun f => h.2 f List.not_mem_nil]
      rfl
  | cons part rest ih =>
    obtain ⟨hnew, honce⟩ := List.nodup_cons.1 honce
    have hcons : collect (F.step decode room) parts (part :: rest) = .ok last ↔
        ∃ x, decode part.1 room part.2 = .ok x ∧
          collect (F.step decode room) (F.set part.1 parts x) rest = .ok last := by
      cases h : decode part.1 room part.2 <;>
        simp [collect, step, h, Except.map, bind, Except.bind]
    rw [hcons, List.forall_mem_cons]
    simp only [ih honce, List.map_cons]
    constructor
    · rintro ⟨x, hx, hall, hrest⟩
      refine ⟨⟨⟨x, hx, ?_⟩, hall⟩, fun f hf => ?_⟩
      · rw [hrest _ hnew, F.get_set_self]
      · rw [hrest f (List.not_mem_of_not_mem_cons hf),
          F.get_set_of_ne _ _ _ _ (List.ne_of_not_mem_cons hf)]
    · rintro ⟨⟨⟨x, hx, hget⟩, hall⟩, hrest⟩
      refine ⟨x, hx, hall, fun f hf => ?_⟩
      by_cases hp : f = part.1
      · subst hp
        rw [hget, F.get_set_self]
      · rw [hrest f (List.not_mem_cons_of_ne_of_not_mem hp hf), F.get_set_of_ne _ _ _ _ hp]

end Form

/-- Going through an array takes its items as the parts in order of declaration. -/
theorem positional_eq_ok_iff {step : σ → φ → Draft → Except DecodeFault σ} {parts last : σ}
    {fs : List φ} {items : List Draft} :
    positional step fs parts items = .ok last ↔
      items.length = fs.length ∧ collect step parts (fs.zip items) = .ok last := by
  induction fs generalizing parts items with
  | nil => cases items <;> simp [positional, collect, pure, Except.pure]
  | cons f fs ih =>
    cases items with
    | nil => simp [positional]
    | cons item rest =>
      simp only [positional, bind_eq_ok, ih, collect, List.zip_cons_cons, List.foldlM_cons,
        List.length_cons, Nat.add_right_cancel_iff]
      constructor
      · rintro ⟨next, hnext, hlength, hrest⟩
        exact ⟨hlength, next, hnext, hrest⟩
      · rintro ⟨hlength, next, hnext, hrest⟩
        exact ⟨next, hnext, hlength, hrest⟩

end

/-! ## Bodies of records -/

section

variable {φ : Type} [Named φ]

/-- The part that a member is, if its key names one. -/
def partOf? (φ : Type) [Named φ] (member : Option String × Draft) : Option (φ × Draft) :=
  (member.1.bind Named.find?).map (·, member.2)

/-- The parts that a record's body holds: the members whose keys name one, or the items, which
stand in order of declaration. -/
def found (φ : Type) [Named φ] : Draft → List (φ × Draft)
  | .object members _ => members.filterMap (partOf? φ)
  | .array items _ => Named.all.zip items
  | _ => []

/-- A member that does not stop a record: its key is a string, and if that names no part the value
makes sense. -/
def Readable (φ : Type) [Named φ] (member : Option String × Draft) : Prop :=
  ∃ key, member.1 = some key ∧ ((Named.find? key : Option φ) = none → member.2.complete = true)

/-- Whether the body can be read to its end, whatever its parts are: an object of members that do not
stop it, or an array of the right length. -/
def Legible (φ : Type) [Named φ] : Draft → Prop
  | .object members closed => closed = true ∧ ∀ member ∈ members, Readable φ member
  | .array items closed => closed = true ∧ items.length = (Named.all (α := φ)).length
  | _ => False

/-- The body is a record's, and holds every part once. -/
structure Holds (body : Draft) (part : φ → Draft) : Prop where
  legible : Legible φ body
  once : ((found φ body).map Prod.fst).Nodup
  mem : ∀ f, (f, part f) ∈ found φ body

theorem Holds.eq {body : Draft} {part : φ → Draft} (h : Holds body part) {f : φ} {draft : Draft}
    (hmem : (f, draft) ∈ found φ body) : draft = part f :=
  congrArg Prod.snd (List.inj_on_of_nodup_map h.once hmem (h.mem f) rfl)

variable {σ α : Type}

/-- Going through an object takes its parts, provided that none comes twice. -/
theorem named_eq_ok_iff {step : σ → φ → Draft → Except DecodeFault σ} {parts last : σ}
    {seen : List String} {members : List (Option String × Draft)} :
    named step seen parts members = .ok last ↔
      (∀ member ∈ members, Readable φ member) ∧
      ((members.filterMap (partOf? φ)).map Prod.fst).Nodup ∧
      (∀ part ∈ members.filterMap (partOf? φ), Named.name part.1 ∉ seen) ∧
      collect step parts (members.filterMap (partOf? φ)) = .ok last := by
  fun_induction named step seen parts members with
  | case1 seen parts => simp [collect, pure, Except.pure]
  | case2 => simp [Readable]
  | case3 seen parts key value rest f hf hseen =>
    obtain rfl := Named.name_of_find? hf
    have hmem : Named.name f ∈ seen := by simpa using hseen
    simp [partOf?, hmem]
  | case4 seen parts key value rest f hf hseen ih =>
    obtain rfl := Named.name_of_find? hf
    have hnew : Named.name f ∉ seen := by simpa using hseen
    have hpart : partOf? φ (some (Named.name f), value) = some (f, value) := by simp [partOf?]
    have hreadable : Readable φ (some (Named.name f), value) := ⟨_, rfl, by simp⟩
    have hseen : (∀ part ∈ rest.filterMap (partOf? φ),
          Named.name part.1 ∉ Named.name f :: seen) ↔
        f ∉ (rest.filterMap (partOf? φ)).map Prod.fst ∧
          ∀ part ∈ rest.filterMap (partOf? φ), Named.name part.1 ∉ seen := by
      simp only [List.mem_cons, not_or, name_inj, forall_and, List.mem_map, not_exists, not_and]
    simp only [bind_eq_ok, ih, List.filterMap_cons, hpart, List.forall_mem_cons, hreadable, true_and,
      List.map_cons, List.nodup_cons, hnew, not_false_eq_true, collect, List.foldlM_cons, hseen]
    constructor
    · rintro ⟨next, hnext, hall, hkeys, ⟨hf, hseen⟩, hrest⟩
      exact ⟨hall, ⟨hf, hkeys⟩, hseen, next, hnext, hrest⟩
    · rintro ⟨hall, ⟨hf, hkeys⟩, hseen, next, hnext, hrest⟩
      exact ⟨next, hnext, hall, hkeys, ⟨hf, hseen⟩, hrest⟩
  | case5 seen parts key value rest hf hcomplete ih =>
    simp [partOf?, Readable, hf, hcomplete, ih]
  | case6 seen parts key value rest hf hcomplete =>
    simp [Readable, hf, hcomplete]

/-- A record takes its parts one after the other, each of them once. -/
theorem record_eq_ok_iff_collect (hall : (Named.all (α := φ)).Nodup) {start : σ}
    {step : (room : Nat) → σ → φ → Draft → Except DecodeFault σ} {finish : σ → Except DecodeFault α}
    {room : Nat} {body : Draft} {a : α} :
    record start step finish room body = .ok a ↔
      ∃ r last, room = r + 1 ∧ Legible φ body ∧ ((found φ body).map Prod.fst).Nodup ∧
        collect (step r) start (found φ body) = .ok last ∧ finish last = .ok a := by
  constructor
  · intro h
    unfold record at h
    split at h
    · rename_i r members closed
      obtain ⟨last, hlast, hend⟩ := bind_eq_ok.1 h
      obtain ⟨hmembers, honce, -, hcollect⟩ := named_eq_ok_iff.1 hlast
      split at hend
      · rename_i hclosed
        exact ⟨r, last, rfl, ⟨hclosed, hmembers⟩, honce, hcollect, hend⟩
      · cases hend
    · rename_i r items closed
      obtain ⟨last, hlast, hend⟩ := bind_eq_ok.1 h
      obtain ⟨hlength, hcollect⟩ := positional_eq_ok_iff.1 hlast
      split at hend
      · rename_i hclosed
        refine ⟨r, last, rfl, ⟨hclosed, hlength⟩, ?_, hcollect, hend⟩
        rwa [found, List.map_fst_zip (Nat.le_of_eq hlength.symm)]
      · cases hend
    · cases h
  · rintro ⟨r, last, rfl, hlegible, honce, hcollect, hfinish⟩
    cases body with
    | object members closed =>
      obtain ⟨rfl, hmembers⟩ := hlegible
      have hnamed : named (step r) [] start members = .ok last :=
        named_eq_ok_iff.2 ⟨hmembers, honce, fun _ _ => List.not_mem_nil, hcollect⟩
      simp only [record, hnamed, ok_bind, if_true, hfinish]
    | array items closed =>
      obtain ⟨rfl, hlength⟩ := hlegible
      have hpositional : positional (step r) Named.all start items = .ok last :=
        positional_eq_ok_iff.2 ⟨hlength, hcollect⟩
      simp only [record, hpositional, ok_bind, if_true, hfinish]
    | _ => cases hlegible

namespace Form

variable {τ : φ → Type} (F : Form φ σ α τ)

/-- The decoder of records of this form, given how their parts are decoded. -/
def decoder (decode : (f : φ) → Decoder (τ f)) : Decoder α :=
  record F.start (F.step decode) F.finish

/-- A record is decoded from a body that holds every part once, and each part from what the body
holds for it. -/
theorem decoder_eq_ok_iff (hall : (Named.all (α := φ)).Nodup) {decode : (f : φ) → Decoder (τ f)}
    {room : Nat} {body : Draft} {a : α} :
    F.decoder decode room body = .ok a ↔
      ∃ r part last, room = r + 1 ∧ Holds body part ∧
        (∀ f, ∃ x, decode f r (part f) = .ok x ∧ F.get f last = some x) ∧
        F.finish last = .ok a := by
  rw [decoder, record_eq_ok_iff_collect hall]
  constructor
  · rintro ⟨r, last, rfl, hlegible, honce, hcollect, hend⟩
    obtain ⟨hfound, hrest⟩ := (F.collect_eq_ok_iff honce).1 hcollect
    have hmem (f : φ) : ∃ draft, (f, draft) ∈ found φ body := by
      -- a slot that nothing filled is as empty as at the start
      by_contra hnone
      have hf : f ∉ (found φ body).map Prod.fst := by simpa using hnone
      obtain ⟨x, hx⟩ := F.exists_get last a hend f
      rw [hrest f hf, F.get_start] at hx
      cases hx
    choose part hpart using hmem
    exact ⟨r, part, last, rfl, ⟨hlegible, honce, hpart⟩, fun f => hfound _ (hpart f), hend⟩
  · rintro ⟨r, part, last, rfl, hbody, hparts, hend⟩
    refine ⟨r, last, rfl, hbody.legible, hbody.once, ?_, hend⟩
    refine (F.collect_eq_ok_iff hbody.once).2 ⟨fun found hfound => ?_, fun f hf => ?_⟩
    · rw [hbody.eq hfound]
      exact hparts found.1
    · exact absurd (List.mem_map_of_mem (hbody.mem f)) hf

end Form

end

end Decode

end Screening
