/-!
# Named alternatives

The vocabulary of rules is made of small closed sets whose members have fixed names. Looking
a name up and listing the names are said once, for all of them.
-/

namespace Screening

/-- A closed set: its members in order of declaration, each with its name. -/
class Named (α : Type) where
  all : List α
  name : α → String
  mem_all : ∀ a : α, a ∈ all
  name_injective : ∀ a b : α, name a = name b → a = b

namespace Named

variable {α : Type} [Named α]

/-- The member with exactly this name. -/
def find? (text : String) : Option α := all.find? (name · == text)

/-- The names of all members, in order of declaration. -/
def names (α : Type) [Named α] : List String := (all (α := α)).map name

/-- Whether this is the name of a member. -/
def isName (α : Type) [Named α] (text : String) : Bool := (find? text : Option α).isSome

theorem name_of_find? {text : String} {a : α} (h : find? text = some a) : name a = text := by
  simpa using List.find?_some h

@[simp] theorem find?_name (a : α) : find? (name a) = some a := by
  cases h : (find? (name a) : Option α) with
  | none =>
    have := List.find?_eq_none.1 h a (mem_all a)
    simp at this
  | some b => rw [name_injective b a (name_of_find? h)]

theorem find?_eq_some_iff {text : String} {a : α} : find? text = some a ↔ name a = text :=
  ⟨name_of_find?, fun h => h ▸ find?_name a⟩

theorem isName_iff {text : String} : isName α text = true ↔ text ∈ names α := by
  rw [isName, Option.isSome_iff_exists, names, List.mem_map]
  constructor
  · intro h
    obtain ⟨a, ha⟩ := h
    exact ⟨a, mem_all a, name_of_find? ha⟩
  · intro h
    obtain ⟨a, -, rfl⟩ := h
    exact ⟨a, find?_name a⟩

end Named

end Screening
