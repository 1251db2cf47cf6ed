import Screening.Text.Ascii
import Screening.Text.Blank
import Screening.Vocabulary.Category
import Screening.Vocabulary.Field
import Screening.Vocabulary.Operators

/-!
# Looking names up

A person may write a name in any case, and, except for a field, with blanks around it. A
comparator may be given by its symbol too.
-/

namespace Screening

/-- A name that is not in the vocabulary, as it was given. -/
structure UnknownName where
  given : String
  deriving DecidableEq, Repr

/-- What is said about an unknown name. -/
def UnknownName.message (e : UnknownName) : String := s!"unknown name '{e.given}'"

/-- The member with the name `text`, in any case and with blanks around it. -/
def Named.read (α : Type) [Named α] (text : String) : Except UnknownName α :=
  match Named.find? (Text.upperAscii (Text.trim text)) with
  | some a => .ok a
  | none => .error ⟨text⟩

/-- The field with the name `text`, in any case but with nothing around it. -/
def Field.read (text : String) : Except UnknownName Field :=
  match Named.find? (Text.upperAscii text) with
  | some f => .ok f
  | none => .error ⟨text⟩

/-- The comparator with the symbol or else the name `text`. -/
def Comparator.read (text : String) : Except UnknownName Comparator :=
  match Comparator.ofSymbol? (Text.upperAscii (Text.trim text)) with
  | some c => .ok c
  | none => Named.read Comparator text

end Screening
