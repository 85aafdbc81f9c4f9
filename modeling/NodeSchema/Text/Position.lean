import NodeSchema.Text.Utf8

/-!
# Lines and columns

A place in a text is told as a line and a column, both counted from one.  Columns count
characters.  A place can be given as an offset in characters (`Position.inChars`) or as an offset
in bytes (`Position.inBytes`); in bytes, what stands on the line before the offset is read with
replacement, so that an offset inside a character counts the part before it as one character.
-/

set_option autoImplicit false

namespace NodeSchema
namespace Text

/-- A place in a text, counted from one. -/
structure Position where
  line : Nat
  column : Nat
deriving DecidableEq, Repr

/-- What follows the last `newline` of a text. -/
def lastLine {α : Type} [BEq α] (newline : α) (text : List α) : List α :=
  (text.reverse.takeWhile (fun x => !(x == newline))).reverse

namespace Position

/-- The place of the character at an offset; an offset past the end means the end. -/
def inChars (text : List Char) (offset : Nat) : Position :=
  let before := text.take offset
  ⟨before.count '\n' + 1, (lastLine '\n' before).length + 1⟩

/-- The place of the byte at an offset; an offset past the end means the end. -/
def inBytes (bytes : List UInt8) (offset : Nat) : Position :=
  let before := bytes.take offset
  ⟨before.count 10 + 1, (decode (lastLine 10 before)).length + 1⟩

/-- Reading order: by line, then by column. -/
def before (p q : Position) : Prop :=
  p.line < q.line ∨ (p.line = q.line ∧ p.column < q.column)

instance (p q : Position) : Decidable (p.before q) := by
  unfold before; infer_instance

end Position
end Text
end NodeSchema
