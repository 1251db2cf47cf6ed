import Screening.Number.Binary64

/-!
# JSON values

Values of JSON, with whole numbers and binary64 numbers told apart. Objects keep the order of
their members; `sorted` is the normal form with each key once, in order.
-/

namespace Screening

open Number

/-- A JSON value. -/
inductive Json
  | null
  | bool (value : Bool)
  | integer (value : Int)
  | float (value : Binary64)
  | string (value : String)
  | array (items : List Json)
  | object (members : List (String × Json))

namespace Json

/-- Puts a member into sorted members, unless its key is there. -/
def addMember (key : String) (value : Json) : List (String × Json) → List (String × Json)
  | [] => [(key, value)]
  | (k, v) :: rest =>
    if key < k then (key, value) :: (k, v) :: rest
    else if key = k then (k, v) :: rest
    else (k, v) :: addMember key value rest

mutual

/-- The value with the members of every object in the order of their keys. Of members with
one key the last is kept. -/
def sorted : Json → Json
  | .array items => .array (sortedItems items)
  | .object members => .object (sortedMembers members)
  | scalar => scalar

def sortedItems : List Json → List Json
  | [] => []
  | item :: rest => item.sorted :: sortedItems rest

def sortedMembers : List (String × Json) → List (String × Json)
  | [] => []
  | (key, value) :: rest => addMember key value.sorted (sortedMembers rest)

end

mutual

/-- How many arrays and objects enclose one another in the value, itself included. -/
def height : Json → Nat
  | .array items => 1 + heightItems items
  | .object members => 1 + heightMembers members
  | _ => 0

def heightItems : List Json → Nat
  | [] => 0
  | item :: rest => max item.height (heightItems rest)

def heightMembers : List (String × Json) → Nat
  | [] => 0
  | (_, value) :: rest => max value.height (heightMembers rest)

end

end Json

end Screening
