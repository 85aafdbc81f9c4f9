import NodeSchema.Text.Ranges

/-!
# Blank characters

A character is blank if Unicode gives it the bidirectional class of a separator (`B`, `S`, `WS`)
or the category of a space.  This is wider than the ASCII blanks: it holds the four information
separators, the next-line and no-break characters and the typographic spaces.
-/

set_option autoImplicit false

namespace NodeSchema
namespace Text

/-- The code points of the blank characters. -/
def blankRanges : List (Nat × Nat) :=
  [(9, 13), (28, 32), (133, 133), (160, 160), (5760, 5760), (8192, 8202), (8232, 8233),
   (8239, 8239), (8287, 8287), (12288, 12288)]

/-- The character is blank. -/
def isBlank (c : Char) : Bool := inRanges blankRanges c

/-- Drops blanks from both ends. -/
def stripBlanks (cs : List Char) : List Char :=
  ((cs.dropWhile isBlank).reverse.dropWhile isBlank).reverse

/-- Drops every blank. -/
def removeBlanks (cs : List Char) : List Char := cs.filter fun c => !isBlank c

end Text
end NodeSchema
