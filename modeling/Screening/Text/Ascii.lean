/-!
# ASCII text

Keywords, field names and operators are ASCII words that are compared in upper case, and
places in a text are counted in UTF-8 bytes. This module holds the notions that every other
one needs: upper case for ASCII letters, the characters of a word and of the space between
words, and byte length.
-/

namespace Screening.Text

/-! ## Upper case -/

/-- `text` with the letters `a` to `z` in upper case and every other character kept. -/
def upperAscii (text : String) : String :=
  String.ofList (text.toList.map Char.toUpper)

@[simp] theorem toList_upperAscii (text : String) :
    (upperAscii text).toList = text.toList.map Char.toUpper := by
  simp [upperAscii]

/-! ## Words -/

/-- A word begins with an ASCII letter or an underscore. -/
def isWordStart (c : Char) : Bool := c.isAlpha || c == '_'

/-- A word goes on with ASCII letters, digits and underscores. -/
def isWordPart (c : Char) : Bool := c.isAlphanum || c == '_'

/-! ## Spaces -/

/-- What may stand between the parts of a text: space, tab, line feed and carriage return. -/
def isSpace (c : Char) : Bool := c == ' ' || c == '\t' || c == '\n' || c == '\r'

/-! ## Byte length -/

/-- The number of UTF-8 bytes that the characters take up. -/
def byteLength : List Char → Nat
  | [] => 0
  | c :: rest => c.utf8Size + byteLength rest

@[simp] theorem byteLength_append (xs ys : List Char) :
    byteLength (xs ++ ys) = byteLength xs + byteLength ys := by
  induction xs with
  | nil => simp [byteLength]
  | cons c rest ih => simp [byteLength, ih, Nat.add_assoc]

end Screening.Text
