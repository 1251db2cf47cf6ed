import Screening.Document.Fault
import Screening.Json.Draft
import Screening.Rule.Literal
import Screening.Vocabulary.Named

/-!
# Shapes of documents

Decoding by shape: scalars, alternatives, records and sequences. A draft is decoded in the
order of its text, so that the first thing wrong with a text is what is reported.

Every array and object that is entered takes one from `room`, the number of arrays and objects
that may still enclose one another. Parts that no one asks for are passed over, not entered.
-/

namespace Screening

open Json (Draft)

namespace Decode

/-- Where a draft comes from. -/
inductive Source
  | text
  | value
  deriving DecidableEq, Repr

/-- Decodes a draft when `room` arrays and objects may still enclose one another. -/
abbrev Decoder (α : Type) := (room : Nat) → Draft → Except DecodeFault α

/-! ## Scalars -/

/-- An integer of 32 bits. -/
def int32 : Draft → Except DecodeFault Int32
  | .integer v => if Literal.fits32 v then .ok (.ofInt v) else .error .malformed
  | _ => .error .malformed

/-- An integer of 64 bits. -/
def int64 : Draft → Except DecodeFault Int64
  | .integer v => if Literal.fits64 v then .ok (.ofInt v) else .error .malformed
  | _ => .error .malformed

/-- A number; an integer is rounded to the nearest binary64 number. -/
def float : Draft → Except DecodeFault Number.Binary64
  | .integer v => ((Number.Binary64.ofInt? v).map .ok).getD (.error .malformed)
  | .float (some x) => .ok x
  | _ => .error .malformed

/-- A string. -/
def string : Draft → Except DecodeFault String
  | .string (some s) => .ok s
  | _ => .error .malformed

/-- A truth value. -/
def bool : Draft → Except DecodeFault Bool
  | .bool b => .ok b
  | _ => .error .malformed

/-! ## Alternatives -/

/-- Looks a name up among the alternatives. -/
def tagOf (τ : Type) [Named τ] (name : String) : Except DecodeFault τ :=
  match Named.find? name with
  | some tag => .ok tag
  | none => .error (.unknownVariant name (Named.names τ))

/-- One of several alternatives: an object with one member, whose key is the name of the
alternative, or the bare name. In a value the number of members is checked first; in a text
the name is judged as soon as it is read, and what follows it in turn. -/
def variant {τ α : Type} [Named τ] (source : Source) (bare : τ → Except DecodeFault α)
    (body : τ → Decoder α) : Decoder α
  | _, .string (some name) => do bare (← tagOf τ name)
  | room + 1, .object ((some name, value) :: others) closed =>
    if source = .value ∧ !others.isEmpty then .error .malformed
    else do
      let a ← body (← tagOf τ name) room value
      if others.isEmpty && closed then return a else throw .malformed
  | _, _ => .error .malformed

/-- A member of a closed set: its name, or an object whose one key is the name and whose value
is null. -/
def name (α : Type) [Named α] (source : Source) : Decoder α :=
  variant source .ok fun a _ value =>
    match value with
    | .null => .ok a
    | _ => .error .malformed

/-! ## Records -/

/-- Goes through the members of an object. A member that is no part of the record is passed
over, provided that its text makes sense; a part must not come twice. -/
def named {φ σ : Type} [Named φ] (step : σ → φ → Draft → Except DecodeFault σ) :
    (seen : List String) → σ → List (Option String × Draft) → Except DecodeFault σ
  | _, parts, [] => .ok parts
  | _, _, (none, _) :: _ => .error .malformed
  | seen, parts, (some key, value) :: rest =>
    match Named.find? key with
    | some f =>
      if seen.contains key then .error (.repeated key)
      else do named step (key :: seen) (← step parts f value) rest
    | none => if value.complete then named step seen parts rest else .error .malformed

/-- Goes through the items of an array that holds the parts in order of declaration. -/
def positional {φ σ : Type} (step : σ → φ → Draft → Except DecodeFault σ) :
    List φ → σ → List Draft → Except DecodeFault σ
  | [], parts, [] => .ok parts
  | f :: fs, parts, item :: rest => do positional step fs (← step parts f item) rest
  | _, _, _ => .error .malformed

/-- A record: an object with its parts as members in any order, or an array of them. -/
def record {φ σ α : Type} [Named φ] (start : σ)
    (step : (room : Nat) → σ → φ → Draft → Except DecodeFault σ)
    (finish : σ → Except DecodeFault α) : Decoder α
  | room + 1, .object members closed => do
    let parts ← named (step room) [] start members
    if closed then finish parts else throw .malformed
  | room + 1, .array items closed => do
    let parts ← positional (step room) Named.all start items
    if closed then finish parts else throw .malformed
  | _, _ => .error .malformed

/-- A part that a record must have. -/
def need {φ α : Type} [Named φ] (key : φ) : Option α → Except DecodeFault α
  | some a => .ok a
  | none => .error (.missing (Named.name key))

/-- An array of any length. -/
def sequence {α : Type} (item : Decoder α) : Decoder (List α)
  | room + 1, .array items closed => do
    let xs ← items.mapM (item room)
    if closed then return xs else throw .malformed
  | _, _ => .error .malformed

end Decode

end Screening
