import NodeSchema.Yaml.Lexeme

/-!
# The layout of a document

`lexemes` cuts a text into lexemes and makes its layout explicit.  Outside brackets and braces the
columns tell the blocks: a block begins with an item or key to the right of the blocks around it,
and ends before the first lexeme to the left of it.

Whether a scalar is a key shows only at the colon after it.  So the place of a scalar that may be
a key is remembered, one for each level of brackets and braces, and the lexemes that announce the
key are put there when the colon comes.  A key ends on the line that it begins on, and within 1024
characters; where a block demands a key, its absence is an error.
-/

set_option autoImplicit false

namespace NodeSchema
namespace Yaml

/-- The place of something that may turn out to be a key. -/
structure KeyPlace where
  /-- The number of lexemes before it. -/
  before : Nat
  /-- It stands where the block demands a key. -/
  isRequired : Bool
  index : Nat
  line : Nat
  column : Nat
deriving Repr

/-- A text as far as it has been cut into lexemes. -/
structure Layout where
  input : Input
  /-- The lexemes so far, in reverse. -/
  lexemes : List Lexeme
  /-- The columns of the open blocks, the innermost first. -/
  blocks : List Nat
  /-- What may be a key at this level of brackets and braces. -/
  place : Option KeyPlace
  /-- What may be a key at the levels around. -/
  outer : List (Option KeyPlace)
  /-- A key may begin here. -/
  allowsKey : Bool
deriving Repr

namespace Layout

/-- The longest distance from a key to its colon. -/
def maxKeyLength : Nat := 1024

/-- The layout of a text before its first lexeme; a byte order mark is passed over. -/
def ofText (cs : List Char) : Layout :=
  let i := Input.ofText cs
  ⟨if i.next? = some byteOrderMark then i.advance else i, [], [], none, [], true⟩

/-- The text goes on within brackets or braces. -/
def inFlow (l : Layout) : Bool := !l.outer.isEmpty

/-- Adds a lexeme. -/
def push (l : Layout) (x : Lexeme) : Layout := { l with lexemes := x :: l.lexemes }

/-- Adds a lexeme after a number of others. -/
def insertAt (l : Layout) (before : Nat) (x : Lexeme) : Layout :=
  let after := l.lexemes.length - before
  { l with lexemes := l.lexemes.take after ++ x :: l.lexemes.drop after }

/-- The innermost open block is to the left of a column. -/
def isRightOfBlocks (l : Layout) (column : Nat) : Bool :=
  match l.blocks with
  | [] => true
  | b :: _ => b < column

/-- The least column of text within the innermost block. -/
def textColumn (l : Layout) : Nat :=
  match l.blocks with
  | [] => 0
  | b :: _ => b + 1

/-! ## Places of keys -/

/-- The place is too far back to be that of a key. -/
def isStale (l : Layout) (p : KeyPlace) : Bool :=
  p.line ≠ l.input.line || maxKeyLength < l.input.index - p.index

/-- Drops a place that is too far back; it must not be required. -/
def dropStale (l : Layout) : Option KeyPlace → Except Refusal (Option KeyPlace)
  | none => .ok none
  | some p =>
    if l.isStale p then (if p.isRequired then .error .malformed else .ok none)
    else .ok (some p)

/-- Drops the places that are too far back. -/
def dropAllStale (l : Layout) : Except Refusal Layout := do
  let place ← l.dropStale l.place
  let outer ← l.outer.mapM l.dropStale
  .ok { l with place, outer }

/-- Gives up the place at this level; it must not be required. -/
def giveUp (l : Layout) : Except Refusal Layout :=
  match l.place with
  | some p => if p.isRequired then .error .malformed else .ok { l with place := none }
  | none => .ok l

/-- Remembers that what follows may be a key. -/
def remember (l : Layout) : Except Refusal Layout :=
  if l.allowsKey then do
    let l ← l.giveUp
    let i := l.input
    let isRequired := !l.inFlow && l.blocks.head? = some i.column
    .ok { l with place := some ⟨l.lexemes.length, isRequired, i.index, i.line, i.column⟩ }
  else .ok l

/-! ## Blocks -/

/-- Ends the blocks that `ends` holds of, up to the first that it does not hold of. -/
def endBlocks (l : Layout) (ends : Nat → Bool) : Layout :=
  if l.inFlow then l
  else
    let n := (l.blocks.takeWhile ends).length
    { l with
      lexemes := List.replicate n .blockEnd ++ l.lexemes
      blocks := l.blocks.drop n }

/-- Ends the blocks to the right of a column. -/
def endBlocksAfter (l : Layout) (column : Nat) : Layout := l.endBlocks fun b => column < b

/-- Ends all blocks. -/
def endAllBlocks (l : Layout) : Layout := l.endBlocks fun _ => true

/-- Begins a block at a column, unless one is there; its first lexeme comes after `before`
others. -/
def beginBlock (l : Layout) (x : Lexeme) (column before : Nat) : Layout :=
  if l.isRightOfBlocks column then { l.insertAt before x with blocks := column :: l.blocks } else l

/-! ## Lexemes -/

/-- Passes over a sign of one character. -/
def sign (l : Layout) (x : Lexeme) : Layout :=
  { l.push x with input := l.input.advance }

/-- Adds a lexeme that was read. -/
def took (l : Layout) (x : Lexeme) (i : Input) : Layout := { l.push x with input := i }

/-- What comes before a directive, a marker of a document or the end: all blocks end. -/
def clear (l : Layout) : Except Refusal Layout :=
  l.endAllBlocks.giveUp.map fun l => { l with allowsKey := false }

/-- An opening bracket or brace. -/
def enterFlow (l : Layout) (x : Lexeme) : Except Refusal Layout := do
  let l ← l.remember
  .ok { l.sign x with place := none, outer := l.place :: l.outer, allowsKey := true }

/-- A closing bracket or brace. -/
def leaveFlow (l : Layout) (x : Lexeme) : Except Refusal Layout := do
  let l ← l.giveUp
  match l.outer with
  | [] => .error .malformed
  | place :: outer => .ok { l.sign x with place, outer, allowsKey := false }

/-- The sign of a block's item or of a key, which may begin a block. -/
def beginEntry (l : Layout) (block x : Lexeme) (allowsKey : Bool) : Except Refusal Layout :=
  if !l.inFlow && !l.allowsKey then .error .malformed
  else
    let l := if l.inFlow then l else l.beginBlock block l.input.column l.lexemes.length
    l.giveUp.map fun l => { l.sign x with allowsKey }

/-- The colon before a value. -/
def value (l : Layout) : Except Refusal Layout :=
  match l.place with
  | some p =>
    let l := { l with place := none }.insertAt p.before .key
    let l := if l.inFlow then l else l.beginBlock .blockMapping p.column p.before
    .ok { l.sign .value with allowsKey := false }
  | none => l.beginEntry .blockMapping .value (!l.inFlow)

/-- A scalar, anchor, tag or reference: a key may begin with it, but not right after it. -/
def word (l : Layout) (read : Input → Except Refusal (Lexeme × Input)) : Except Refusal Layout := do
  let l ← l.remember
  let (x, i) ← read l.input
  .ok { l.took x i with allowsKey := false }

/-- A quoted scalar. -/
def quoted (i : Input) : Except Refusal (Lexeme × Input) :=
  (Quoted.read i).map fun r => (.scalar r.1 false, r.2)

/-- A plain scalar. -/
def plain (l : Layout) : Except Refusal Layout := do
  let l ← l.remember
  let t := Plain.read l.inFlow l.textColumn l.input
  .ok { l.took (.scalar (String.ofList t.text) true) t.after with allowsKey := t.crossesLine }

/-- A block scalar. -/
def blockScalar (l : Layout) (isFolded : Bool) : Except Refusal Layout := do
  let l ← l.giveUp
  let (text, i) ← Block.read isFolded l.textColumn l.input
  .ok { l.took (.scalar text false) i with allowsKey := true }

/-- Passes over spaces, comments and line ends, of which it tells whether there were any. -/
def skipGap : Nat → Input → Input × Bool
  | 0, i => (i, false)
  | fuel + 1, i =>
    let j := i.skipSpaces.skipComment
    match j.lineBreak? with
    | some (_, k) => ((skipGap fuel k).1, true)
    | none => (j, false)

/-- Comes to the start of the next lexeme. -/
def toNext (l : Layout) : Except Refusal Layout := do
  let (i, crossed) := skipGap (l.input.rest.length + 1) l.input
  let l := { l with input := i, allowsKey := l.allowsKey || (crossed && !l.inFlow) }
  .ok ((← l.dropAllStale).endBlocksAfter l.input.column)

/-- Adds the lexeme that stands at the start of the text that is left. -/
def lexeme (l : Layout) (c : Char) : Except Refusal Layout :=
  let i := l.input
  let atMarker := i.column = 0 && i.isMarker
  if c = '%' && i.column = 0 then do
    let l ← l.clear
    let (x, j) ← directive i
    .ok (l.took x j)
  else if atMarker then do
    let l ← l.clear
    .ok (l.took (if c = '-' then .documentStart else .documentEnd) (i.advanceBy 3))
  else if c = '[' then l.enterFlow .openList
  else if c = '\x7b' then l.enterFlow .openMapping
  else if c = ']' then l.leaveFlow .closeList
  else if c = '\x7d' then l.leaveFlow .closeMapping
  else if c = ',' then l.giveUp.map fun l => { l.sign .comma with allowsKey := true }
  else if c = '-' && isBlankOrEnd (i.ahead? 1) then l.beginEntry .blockList .item true
  else if c = '?' && (l.inFlow || isBlankOrEnd (i.ahead? 1)) then
    l.beginEntry .blockMapping .key (!l.inFlow)
  else if c = ':' && (l.inFlow || isBlankOrEnd (i.ahead? 1)) then l.value
  else if c = '*' then l.word fun i => (anchorName i).map fun r => (.reference r.1, r.2)
  else if c = '&' then l.word fun i => (anchorName i).map fun r => (.anchor r.1, r.2)
  else if c = '!' then l.word tag
  else if c = '|' && !l.inFlow then l.blockScalar false
  else if c = '>' && !l.inFlow then l.blockScalar true
  else if c = '\'' || c = '"' then l.word quoted
  else if Plain.starts l.inFlow i then l.plain
  else .error .malformed

/-- Adds the next lexeme; nothing at the end of the text. -/
def step (l : Layout) : Except Refusal (Option Layout) := do
  let l ← l.toNext
  match l.input.next? with
  | some c => (l.lexeme c).map some
  | none => .ok none

/-- Adds the lexemes of the text that is left. -/
def run : Nat → Layout → List Lexeme
  | 0, l => l.lexemes
  | fuel + 1, l =>
    match l.step with
    | .ok (some l') => run fuel l'
    | .ok none =>
      match l.clear with
      | .ok l' => .textEnd :: l'.lexemes
      | .error e => .refused e :: l.lexemes
    | .error e => .refused e :: l.lexemes

end Layout

/-- The lexemes of a text.  Every step but the last takes a character, so the length of the text
bounds their number. -/
def lexemes (cs : List Char) : List Lexeme :=
  (Layout.run (cs.length + 2) (.ofText cs)).reverse

end Yaml
end NodeSchema
