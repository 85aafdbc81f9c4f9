import NodeSchema.Yaml.Input

/-!
# Block scalars

A literal block keeps its line ends; a folded block reads single line ends between lines that do
not start with a blank as spaces.  The header may say by how much the block is indented, and
whether the line ends at its end are dropped or kept; otherwise the first line with text tells the
indentation, and one line end is kept.
-/

set_option autoImplicit false

namespace NodeSchema
namespace Yaml
namespace Block

/-- What becomes of the line ends at the end of a block. -/
inductive Chomping
  | clip
  | drop
  | keep
deriving DecidableEq, Repr

/-- The header of a block. -/
structure Header where
  chomping : Chomping
  /-- The indentation, counted from that of the block around. -/
  indent : Option Nat
deriving Repr

/-- Reads the mark that tells what becomes of line ends. -/
def chomping (i : Input) : Chomping × Input :=
  match i.next? with
  | some '+' => (.keep, i.advance)
  | some '-' => (.drop, i.advance)
  | _ => (.clip, i)

/-- Reads the digit that tells the indentation. -/
def indentDigit (i : Input) : Except Refusal (Option Nat × Input) :=
  match i.next? with
  | some c =>
    if c = '0' then .error .malformed
    else if c.isDigit then .ok (some (c.toNat - 48), i.advance)
    else .ok (none, i)
  | none => .ok (none, i)

/-- Reads a header; its two parts may stand in either order. -/
def header (i : Input) : Except Refusal (Header × Input) := do
  let (first, j) := chomping i
  let (indent, j) ← indentDigit j
  let (chomping, j) :=
    match first, indent with
    | .clip, some _ => chomping j
    | c, _ => (c, j)
  if isSpaceOrEnd j.next? then .ok (⟨chomping, indent⟩, j) else .error .malformed

/-- Takes the empty lines at the start of a block, and tells the greatest column reached by their
spaces. -/
def leading : Nat → Nat → Input → List Char × Nat × Input
  | 0, widest, i => ([], widest, i)
  | fuel + 1, widest, i =>
    let j := i.skipSpaces
    let widest := if j.index = i.index then widest else max widest j.column
    match j.lineBreak? with
    | none => ([], widest, j)
    | some (c, k) =>
      let (cs, w, l) := leading fuel widest k
      (c :: cs, w, l)

/-- Takes empty lines, and the indentation of the next line. -/
def emptyLines (indent : Nat) : Nat → Input → List Char × Input
  | 0, i => ([], i)
  | fuel + 1, i =>
    let j := i.skipSpacesTo indent
    match j.lineBreak? with
    | none => ([], j)
    | some (c, k) =>
      let (cs, l) := emptyLines indent fuel k
      (c :: cs, l)

/-- What the lines of a block stand for: its text, the last line end, and the empty lines after
it. -/
structure Lines where
  text : List Char
  last : List Char
  empty : List Char
  after : Input

/-- The character starts text that is not folded. -/
def isIndented (c : Option Char) : Bool := c = some ' ' || c = some '\t'

/-- Reads the lines of a block; `empty` are the empty lines before. -/
def lines (isFolded : Bool) (indent : Nat) : Nat → List Char → List Char → Input → Lines
  | 0, last, empty, i => ⟨[], last, empty, i⟩
  | fuel + 1, last, empty, i =>
    if i.column = indent && !i.rest.isEmpty then
      let (text, j) := i.takeWhile fun c => !isBreak c
      let (last, k) : List Char × Input := match j.lineBreak? with
        | some (c, k) => ([c], k)
        | none => ([], j)
      let (empty', l) := emptyLines indent (k.rest.length + 1) k
      let joint : List Char :=
        if l.column = indent && !l.rest.isEmpty then
          if isFolded && last = ['\n'] && !isIndented i.next? && !isIndented l.next? then
            if empty'.isEmpty then [' '] else []
          else last
        else []
      let more := lines isFolded indent fuel last empty' l
      { more with text := empty ++ text ++ joint ++ more.text }
    else ⟨[], last, empty, i⟩

/-- Reads a block scalar from its sign on; `least` is the least column of its lines. -/
def read (isFolded : Bool) (least : Nat) (i : Input) : Except Refusal (String × Input) := do
  let (h, j) ← header i.advance
  let k ← j.restOfLine
  let least := max least 1
  let fuel := k.rest.length + 1
  let (empty, indent, l) : List Char × Nat × Input :=
    match h.indent with
    | none =>
      let (empty, widest, l) := leading fuel 0 k
      (empty, max least widest, l)
    | some n =>
      let indent := least + n - 1
      let (empty, l) := emptyLines indent fuel k
      (empty, indent, l)
  let body := lines isFolded indent fuel [] empty l
  let tail : List Char := match h.chomping with
    | .drop => []
    | .clip => body.last
    | .keep => body.last ++ body.empty
  .ok (String.ofList (body.text ++ tail), body.after)

end Block
end Yaml
end NodeSchema
