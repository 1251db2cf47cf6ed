import Screening.Json.Draft
import Screening.Proofs.Json.Number

/-!
# Values and drafts

Values as trees: induction on them, how high they are, which of them can be written down and what
becomes of them if their floats change. The draft of a value has as many levels as the value, and
the value, sorted, is what it stands for as far as there is room for them.
-/

namespace Screening.Json

/-! ## Induction -/

/-- Induction on values. An array may assume the claim of every item, and an object that of every
member's value. -/
@[elab_as_elim, induction_eliminator]
theorem induct {P : Json → Prop} (null : P .null) (bool : ∀ value, P (.bool value))
    (integer : ∀ value, P (.integer value)) (float : ∀ value, P (.float value))
    (string : ∀ value, P (.string value))
    (array : ∀ items, (∀ item ∈ items, P item) → P (.array items))
    (object : ∀ members, (∀ member ∈ members, P member.2) → P (.object members))
    (value : Json) : P value :=
  Json.rec (motive_1 := P) (motive_2 := fun items => ∀ item ∈ items, P item)
    (motive_3 := fun members => ∀ member ∈ members, P member.2) (motive_4 := fun member => P member.2)
    null bool integer float string array object
    (fun _ h => absurd h List.not_mem_nil)
    (fun _ _ ih ihs => List.forall_mem_cons.2 ⟨ih, ihs⟩)
    (fun _ h => absurd h List.not_mem_nil)
    (fun _ _ ih ihs => List.forall_mem_cons.2 ⟨ih, ihs⟩)
    (fun _ _ ih => ih) value

/-! ## Writable values -/

mutual

/-- Every integer in the value is one of 64 bits, signed or not. No other integer is read back
as an integer. -/
def Writable : Json → Prop
  | .integer v => FitsNumber v
  | .array items => WritableItems items
  | .object members => WritableMembers members
  | _ => True

def WritableItems : List Json → Prop
  | [] => True
  | item :: rest => item.Writable ∧ WritableItems rest

def WritableMembers : List (String × Json) → Prop
  | [] => True
  | (_, value) :: rest => value.Writable ∧ WritableMembers rest

end

theorem writableItems_iff {items : List Json} :
    WritableItems items ↔ ∀ item ∈ items, item.Writable := by
  induction items with
  | nil => simp [WritableItems]
  | cons item rest ih => simp only [WritableItems, ih, List.forall_mem_cons]

theorem writableMembers_iff {members : List (String × Json)} :
    WritableMembers members ↔ ∀ member ∈ members, member.2.Writable := by
  induction members with
  | nil => simp [WritableMembers]
  | cons member rest ih => simp only [WritableMembers, ih, List.forall_mem_cons]

/-! ## Floats in values -/

mutual

/-- The value with each float replaced by what `f` makes of it. -/
def mapFloats (f : Number.Binary64 → Number.Binary64) : Json → Json
  | .float x => .float (f x)
  | .array items => .array (mapFloatsItems f items)
  | .object members => .object (mapFloatsMembers f members)
  | scalar => scalar

def mapFloatsItems (f : Number.Binary64 → Number.Binary64) : List Json → List Json
  | [] => []
  | item :: rest => item.mapFloats f :: mapFloatsItems f rest

def mapFloatsMembers (f : Number.Binary64 → Number.Binary64) :
    List (String × Json) → List (String × Json)
  | [] => []
  | (key, value) :: rest => (key, value.mapFloats f) :: mapFloatsMembers f rest

end

theorem mapFloatsItems_eq (f : Number.Binary64 → Number.Binary64) (items : List Json) :
    mapFloatsItems f items = items.map (mapFloats f) := by
  induction items with
  | nil => rfl
  | cons item rest ih => rw [mapFloatsItems, ih, List.map_cons]

/-! ## Values of drafts -/

theorem valueItems?_draft {items : List Json} {room : Nat}
    (h : ∀ item ∈ items,
      item.draft.value? room = if item.height ≤ room then some item.sorted else none) :
    valueItems? room (draftItems items) =
      if heightItems items ≤ room then some (sortedItems items) else none := by
  induction items with
  | nil => rfl
  | cons item rest ih =>
    obtain ⟨hitem, hrest⟩ := List.forall_mem_cons.1 h
    simp only [draftItems, valueItems?, hitem, ih hrest, heightItems, sortedItems, Nat.max_le]
    by_cases hi : item.height ≤ room <;> by_cases hr : heightItems rest ≤ room <;> simp [hi, hr]

theorem valueMembers?_draft {members : List (String × Json)} {room : Nat}
    (h : ∀ member ∈ members, member.2.draft.value? room =
      if member.2.height ≤ room then some member.2.sorted else none) :
    valueMembers? room (draftMembers members) =
      if heightMembers members ≤ room then some (sortedMembers members) else none := by
  induction members with
  | nil => rfl
  | cons member rest ih =>
    obtain ⟨hmember, hrest⟩ := List.forall_mem_cons.1 h
    simp only [draftMembers, valueMembers?, hmember, ih hrest, heightMembers, sortedMembers,
      Nat.max_le]
    by_cases hi : member.2.height ≤ room <;> by_cases hr : heightMembers rest ≤ room <;>
      simp [hi, hr]

/-- A draft of a value stands for the value with sorted keys if there is room for all levels of
it, and for nothing otherwise. -/
theorem value?_draft (value : Json) (room : Nat) :
    value.draft.value? room = if value.height ≤ room then some value.sorted else none := by
  induction value generalizing room with
  | array items ih =>
    cases room with
    | zero =>
      rw [if_neg (by simp only [height]; omega)]
      rfl
    | succ room =>
      simp only [draft, Draft.value?, valueItems?_draft fun item hi => ih item hi room, height,
        Nat.add_comm 1, Nat.add_le_add_iff_right, if_true, sorted]
      split <;> rfl
  | object members ih =>
    cases room with
    | zero =>
      rw [if_neg (by simp only [height]; omega)]
      rfl
    | succ room =>
      simp only [draft, Draft.value?, valueMembers?_draft fun member hm => ih member hm room,
        height, Nat.add_comm 1, Nat.add_le_add_iff_right, if_true, sorted]
      split <;> rfl
  | _ => simp [draft, Draft.value?, height, sorted]

end Screening.Json
