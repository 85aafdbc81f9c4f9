import NodeSchema.Failure

/-!
# Reading along a text

`Input` is a text as far as it has been read: the characters that are left, and how many
characters, lines and columns went before.  The layout of a document depends on columns, and a key
may not be longer than a number of characters, so all three are kept.

Line ends are unified before a text is read, so the carriage return is not among them here.
-/

set_option autoImplicit false

namespace NodeSchema
namespace Yaml

/-- Why a document is refused. -/
inductive Refusal
  /-- The text is no document. -/
  | malformed
  /-- A scalar has no value of its type. -/
  | fault (fault : Fault)
deriving DecidableEq, Repr

/-- The most digits of a decimal number. -/
def maxDigits : Nat := 4300

/-! ## Characters -/

/-- The character ends a line. -/
def isBreak (c : Char) : Bool :=
  c = '\n' || c = Char.ofNat 0x85 || c = Char.ofNat 0x2028 || c = Char.ofNat 0x2029

/-- What a line end stands for: the next-line character counts as a line feed. -/
def breakText (c : Char) : Char := if c = Char.ofNat 0x85 then '\n' else c

/-- The byte order mark, which has no width. -/
def byteOrderMark : Char := Char.ofNat 0xFEFF

/-- The line has ended. -/
def isLineEnd : Option Char → Bool
  | some c => isBreak c
  | none => true

/-- There is a space, or the line has ended. -/
def isSpaceOrEnd (c : Option Char) : Bool := c = some ' ' || isLineEnd c

/-- There is a space or tab, or the line has ended. -/
def isBlankOrEnd (c : Option Char) : Bool := c = some '\t' || isSpaceOrEnd c

/-- The characters of anchors, of handles and of the names of directives. -/
def isNameChar (c : Char) : Bool := c.isAlphanum || c = '-' || c = '_'

/-- The value of a hexadecimal digit. -/
def hexValue? (c : Char) : Option Nat :=
  if c.isDigit then some (c.toNat - 48)
  else if 'a' ≤ c && c ≤ 'f' then some (c.toNat - 87)
  else if 'A' ≤ c && c ≤ 'F' then some (c.toNat - 55)
  else none

/-- The number that hexadecimal digits are. -/
def hexNumber? (ds : List Char) : Option Nat :=
  (ds.mapM hexValue?).map fun vs => vs.foldl (fun n d => n * 16 + d) 0

/-! ## Inputs -/

/-- A text as far as it has been read. -/
structure Input where
  rest : List Char
  /-- The number of characters read. -/
  index : Nat
  line : Nat
  column : Nat
deriving Repr

namespace Input

/-- The start of a text. -/
def ofText (cs : List Char) : Input := ⟨cs, 0, 0, 0⟩

/-- The next character. -/
def next? (i : Input) : Option Char := i.rest.head?

/-- The character after `n` others. -/
def ahead? (i : Input) (n : Nat) : Option Char := i.rest[n]?

/-- Passes over a character. -/
def advance (i : Input) : Input :=
  match i.rest with
  | [] => i
  | c :: rest =>
    if isBreak c then ⟨rest, i.index + 1, i.line + 1, 0⟩
    else ⟨rest, i.index + 1, i.line, if c = byteOrderMark then i.column else i.column + 1⟩

/-- Passes over characters. -/
def advanceBy : Nat → Input → Input
  | 0, i => i
  | n + 1, i => advanceBy n i.advance

/-- Passes over the characters of a kind. -/
def skipWhile (isSkipped : Char → Bool) (i : Input) : Input :=
  i.advanceBy (i.rest.takeWhile isSkipped).length

/-- Takes the characters of a kind. -/
def takeWhile (isTaken : Char → Bool) (i : Input) : List Char × Input :=
  (i.rest.takeWhile isTaken, i.skipWhile isTaken)

/-- Passes over spaces. -/
def skipSpaces (i : Input) : Input := i.skipWhile (· = ' ')

/-- Passes over spaces up to a column. -/
def skipSpacesTo (column : Nat) (i : Input) : Input :=
  i.advanceBy (min (i.rest.takeWhile (· = ' ')).length (column - i.column))

/-- Passes over a comment, up to the end of its line. -/
def skipComment (i : Input) : Input :=
  if i.next? = some '#' then i.skipWhile fun c => !isBreak c else i

/-- Takes a line end. -/
def lineBreak? (i : Input) : Option (Char × Input) :=
  match i.next? with
  | some c => if isBreak c then some (breakText c, i.advance) else none
  | none => none

/-- Passes over the blanks and the comment at the end of a line, and over the line end; there must
be nothing else. -/
def restOfLine (i : Input) : Except Refusal Input :=
  let j := i.skipSpaces.skipComment
  match j.lineBreak? with
  | some (_, k) => .ok k
  | none => if j.rest.isEmpty then .ok j else .error .malformed

/-- A marker of the start or end of a document stands here, if this is the start of a line. -/
def isMarker (i : Input) : Bool :=
  match i.rest with
  | a :: b :: c :: _ =>
    ((a = '-' && b = '-' && c = '-') || (a = '.' && b = '.' && c = '.'))
      && isBlankOrEnd (i.ahead? 3)
  | _ => false

end Input
end Yaml
end NodeSchema
