import Screening.Token.Lexeme

/-!
# Scanning

The tokens of a text. Blanks between lexemes are skipped; the first character that begins no
lexeme ends the scan.
-/

namespace Screening

/-- A character that begins no lexeme, and its place. -/
structure LexError where
  character : Char
  position : Nat
  deriving DecidableEq, Repr

/-- What is said about a character that begins no lexeme. -/
def LexError.message (e : LexError) : String :=
  s!"unknown character '{e.character}' at position {e.position}; " ++
    "check the spelling of fields, operators and values"

namespace Token

/-- The tokens of `cs`, which begins at `position`. Each uses up a character at least, so as
many steps as there are characters are enough. -/
def scanFrom (keepCase : Bool) : (steps : Nat) → (position : Nat) → List Char →
    Except LexError (List Token)
  | 0, _, _ => .ok []
  | steps + 1, position, cs =>
    let start := position + Text.byteLength (cs.takeWhile Text.isSpace)
    match cs.dropWhile Text.isSpace with
    | [] => .ok []
    | c :: rest =>
      match Lexeme.front? (c :: rest) with
      | none => .error ⟨c, start⟩
      | some x => do
        let tokens ← scanFrom keepCase steps (start + Text.byteLength x.raw) x.rest
        return x.token keepCase start :: tokens

/-- The tokens of a text. With `keepCase` strings keep their case, else they are in upper
case like everything else. -/
def scan (text : String) (keepCase : Bool := true) : Except LexError (List Token) :=
  scanFrom keepCase text.toList.length 0 text.toList

end Token

end Screening
