import Screening.Json.Value

/-!
# Drafts

What a text says before anyone decides whether it is a JSON value. A draft keeps the order of
the text and repeated keys, and where the text stops making sense the draft stops too. Parts
that are well formed but stand for nothing, a number too large for binary64 or an escape for
half a character, do not stop it: they matter only to who wants their value.
-/

namespace Screening.Json

open Number

/-- A text as far as it can be read. -/
inductive Draft
  /-- Here the text stops making sense. -/
  | broken
  | null
  | bool (value : Bool)
  | integer (value : Int)
  /-- A number that is no 64-bit integer. It has no value if it is too large. -/
  | float (value : Option Binary64)
  /-- A string. It has no value if an escape in it is half of a surrogate pair. -/
  | string (value : Option String)
  /-- An array, closed if the text goes on behind it. -/
  | array (items : List Draft) (closed : Bool)
  /-- An object, closed if the text goes on behind it. -/
  | object (members : List (Option String × Draft)) (closed : Bool)

/-! ## Completeness -/

mutual

/-- Whether the draft goes on to its end. -/
def Draft.complete : Draft → Bool
  | .broken => false
  | .array items closed => closed && completeItems items
  | .object members closed => closed && completeMembers members
  | _ => true

def completeItems : List Draft → Bool
  | [] => true
  | item :: rest => item.complete && completeItems rest

def completeMembers : List (Option String × Draft) → Bool
  | [] => true
  | (_, value) :: rest => value.complete && completeMembers rest

end

/-! ## Drafts and values -/

mutual

/-- The value of a draft, if all of it has one and arrays and objects enclose one another at
most `room` times. Of members with one key the last is kept, and keys are sorted. -/
def Draft.value? : (room : Nat) → Draft → Option Json
  | _, .broken => none
  | _, .null => some .null
  | _, .bool b => some (.bool b)
  | _, .integer v => some (.integer v)
  | _, .float x => x.map .float
  | _, .string s => s.map .string
  | 0, .array .. => none
  | 0, .object .. => none
  | room + 1, .array items closed => if closed then (valueItems? room items).map .array else none
  | room + 1, .object members closed =>
    if closed then (valueMembers? room members).map .object else none

def valueItems? : (room : Nat) → List Draft → Option (List Json)
  | _, [] => some []
  | room, item :: rest => do return (← item.value? room) :: (← valueItems? room rest)

def valueMembers? : (room : Nat) → List (Option String × Draft) → Option (List (String × Json))
  | _, [] => some []
  | room, (key, value) :: rest => do
    return addMember (← key) (← value.value? room) (← valueMembers? room rest)

end

mutual

/-- A value as a draft of itself. -/
def draft : Json → Draft
  | .null => .null
  | .bool b => .bool b
  | .integer v => .integer v
  | .float x => .float (some x)
  | .string s => .string (some s)
  | .array items => .array (draftItems items) true
  | .object members => .object (draftMembers members) true

def draftItems : List Json → List Draft
  | [] => []
  | item :: rest => item.draft :: draftItems rest

def draftMembers : List (String × Json) → List (Option String × Draft)
  | [] => []
  | (key, value) :: rest => (some key, value.draft) :: draftMembers rest

end

end Screening.Json
