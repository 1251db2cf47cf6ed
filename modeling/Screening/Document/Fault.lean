import Screening.Rule.Builder

/-!
# Decoding faults

Why a document is no rule. Some faults are put into words; of others it is only said that the
document is invalid.
-/

namespace Screening

/-- Why a draft cannot be decoded. -/
inductive DecodeFault
  /-- An object lacks a member. -/
  | missing (key : String)
  /-- A name is none of the known ones. -/
  | unknownVariant (given : String) (known : List String)
  /-- An object has a member twice. -/
  | repeated (key : String)
  /-- A logical node has the wrong number of operands. -/
  | arity (e : ArityError)
  /-- The text is no JSON, or a part has the wrong shape. -/
  | malformed
  deriving DecidableEq, Repr

namespace DecodeFault

/-- Alternatives in words. -/
def alternatives : List String → String
  | [a, b] => s!"`{a}` or `{b}`"
  | names => "one of " ++ ", ".intercalate (names.map fun name => s!"`{name}`")

/-- What is said about a fault. Of a wrong shape nothing is. -/
def message? : DecodeFault → Option String
  | missing key => some s!"missing field `{key}`"
  | unknownVariant given known =>
    some s!"unknown variant `{given}`, expected {alternatives known}"
  | repeated key => some s!"duplicate field `{key}`"
  | arity e => some e.message
  | malformed => none

/-- What is said about a rule's document with this fault. -/
def documentMessage? (fault : DecodeFault) : Option String :=
  fault.message?.map ("invalid rule document: " ++ ·)

end DecodeFault

end Screening
