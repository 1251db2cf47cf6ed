/-!
# Blanks

The characters with the Unicode property `White_Space`. A text made of them alone says
nothing, and names are looked up after the blanks at both ends are dropped.
-/

namespace Screening.Text

/-- The ranges of the property `White_Space`, both ends included. -/
def whiteSpace : List (Nat × Nat) :=
  [(0x9, 0xD), (0x20, 0x20), (0x85, 0x85), (0xA0, 0xA0), (0x1680, 0x1680), (0x2000, 0x200A),
   (0x2028, 0x2029), (0x202F, 0x202F), (0x205F, 0x205F), (0x3000, 0x3000)]

/-- Whether `c` lies in one of the ranges. -/
def inRanges (ranges : List (Nat × Nat)) (c : Char) : Bool :=
  ranges.any fun range => range.1 ≤ c.toNat && c.toNat ≤ range.2

/-- Whether `c` is white space. -/
def isBlank (c : Char) : Bool := inRanges whiteSpace c

/-- Whether `text` holds nothing but white space. -/
def allBlank (text : String) : Bool := text.toList.all isBlank

/-- `text` without the white space at its two ends. -/
def trim (text : String) : String :=
  String.ofList ((text.toList.dropWhile isBlank).reverse.dropWhile isBlank).reverse

end Screening.Text
