import Screening.Admission
import Screening.Syntax.Grammar
import Screening.Text.Blank
import Screening.Token.Scan

/-!
# Compiling

From the text of an expression to its rule. A text is measured, scanned, admitted and read, in
that order, and the first error ends it.
-/

namespace Screening

/-! ## Options and errors -/

/-- What can be set about compiling. -/
structure CompileOptions where
  /-- Whether strings keep their case. -/
  preserveLiteralCase : Bool := true
  /-- How often groups and negations may enclose one another. -/
  maxDepth : Nat := 64
  /-- How many bytes an expression may have. -/
  maxLength : Nat := 4096
  deriving DecidableEq, Repr

/-- Why an expression does not compile. -/
inductive CompileError
  | blank
  | lexical (e : LexError)
  | refused (e : Refusal)
  | grammatical (e : SyntaxError)

namespace CompileError

/-- What is said about the error. -/
def message : CompileError → String
  | blank => "expression cannot be empty"
  | lexical e => e.message
  | refused e => e.message
  | grammatical e => e.message

/-- The byte that the error is tied to, if it is tied to one. -/
def position : CompileError → Option Nat
  | lexical e => some e.position
  | grammatical e => e.position
  | _ => none

end CompileError

/-! ## Stages -/

/-- The place behind the last token. -/
def Token.finishOf (tokens : List Token) : Nat := (tokens.getLast?.map Token.finish).getD 0

/-- Reads tokens as a rule under the default limit on nesting. -/
def Rule.ofTokens (tokens : List Token) (category : Category) : Except SyntaxError Rule :=
  Grammar.read ⟨category, ({} : CompileOptions).maxDepth, Token.finishOf tokens⟩ tokens

/-- Compiles an expression. -/
def compile (options : CompileOptions) (text : String) (category : Category) :
    Except CompileError Rule := do
  if Text.allBlank text then throw .blank
  if options.maxLength < text.utf8ByteSize then
    throw (.grammatical ⟨category, none, .tooLong text.utf8ByteSize options.maxLength⟩)
  let tokens ← (Token.scan text options.preserveLiteralCase).mapError .lexical
  (Admission.check tokens category).mapError .refused
  (Grammar.read ⟨category, options.maxDepth, text.utf8ByteSize⟩ tokens).mapError .grammatical

end Screening
