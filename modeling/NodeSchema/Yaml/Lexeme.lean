import NodeSchema.Text.Utf8
import NodeSchema.Yaml.Scalar.Block
import NodeSchema.Yaml.Scalar.Plain

/-!
# Lexemes of a document

The pieces that a document consists of.  Apart from the signs and scalars that are written there
are the pieces that the layout stands for: where a block begins and ends, and that a key comes.
The list of a document's lexemes ends with `Lexeme.textEnd`, or with the reason why the text is
refused.
-/

set_option autoImplicit false

namespace NodeSchema
namespace Yaml

/-- An instruction before a document. -/
inductive Directive
  /-- The version that a document is written in. -/
  | version (major : List Char)
  /-- What a handle of tags stands for. -/
  | handle (name stands : String)
  | other
deriving DecidableEq, Repr

/-- A piece of a document. -/
inductive Lexeme
  | directive (d : Directive)
  | documentStart
  | documentEnd
  | blockList
  | blockMapping
  | blockEnd
  | openList
  | closeList
  | openMapping
  | closeMapping
  | comma
  | item
  | key
  | value
  | reference (name : String)
  | anchor (name : String)
  /-- A type that is written out: the suffix to a handle, or the whole type. -/
  | tag (handle : Option String) (suffix : String)
  | scalar (text : String) (isPlain : Bool)
  | textEnd
  | refused (why : Refusal)
deriving DecidableEq, Repr

/-! ## Names -/

/-- Reads a name. -/
def name (i : Input) : Except Refusal (String × Input) :=
  let (cs, j) := i.takeWhile isNameChar
  if cs.isEmpty then .error .malformed else .ok (String.ofList cs, j)

/-- What may follow the name of an anchor. -/
def endsName (c : Option Char) : Bool :=
  isBlankOrEnd c
    || c.any fun d => ['?', ':', ',', ']', '\x7d', '%', '@', Char.ofNat 0x60].contains d

/-- Reads the name after the sign of an anchor or of a reference. -/
def anchorName (i : Input) : Except Refusal (String × Input) := do
  let (n, j) ← name i.advance
  if endsName j.next? then .ok (n, j) else .error .malformed

/-! ## Tags -/

/-- The characters of a tag. -/
def isTagChar (c : Char) : Bool :=
  c.isAlphanum || "-;/?:@&=+$,_.!~*'()[]%".toList.contains c

/-- Takes escaped bytes. -/
def escapedBytes : Nat → Input → Except Refusal (List UInt8 × Input)
  | 0, _ => .error .malformed
  | fuel + 1, i =>
    if i.next? = some '%' then
      let ds := i.advance.rest.take 2
      match hexNumber? ds with
      | some n =>
        if ds.length < 2 then .error .malformed
        else do
          let (bytes, j) ← escapedBytes fuel (i.advanceBy 3)
          .ok (UInt8.ofNat n :: bytes, j)
      | none => .error .malformed
    else .ok ([], i)

/-- Reads the characters of a tag, of which there may be none. -/
def tagChars : Nat → Input → Except Refusal (List Char × Input)
  | 0, _ => .error .malformed
  | fuel + 1, i =>
    match i.next? with
    | some c =>
      if c = '%' then do
        let (bytes, j) ← escapedBytes (i.rest.length + 1) i
        match Text.decode? bytes with
        | some cs => do
          let (more, k) ← tagChars fuel j
          .ok (cs ++ more, k)
        | none => .error .malformed
      else if isTagChar c then do
        let (more, k) ← tagChars fuel i.advance
        .ok (c :: more, k)
      else .ok ([], i)
    | none => .ok ([], i)

/-- Reads the characters of a tag. -/
def tagText (i : Input) : Except Refusal (String × Input) := do
  let (cs, j) ← tagChars (i.rest.length + 1) i
  if j.index = i.index then .error .malformed else .ok (String.ofList cs, j)

/-- Reads a handle: one exclamation mark, or a name between two. -/
def handle (i : Input) : Except Refusal (String × Input) :=
  if i.next? ≠ some '!' then .error .malformed
  else if i.ahead? 1 = some ' ' then .ok ("!", i.advance)
  else
    let (cs, j) := i.advance.takeWhile isNameChar
    if j.next? = some '!' then .ok (String.ofList ('!' :: cs ++ ['!']), j.advance)
    else .error .malformed

/-- A handle with a second exclamation mark stands before the end of the word. -/
def hasHandle (cs : List Char) : Bool :=
  (cs.takeWhile fun c => c ≠ ' ' && !isBreak c).contains '!'

/-- Reads a tag. -/
def tag (i : Input) : Except Refusal (Lexeme × Input) := do
  let (t, j) ←
    if i.ahead? 1 = some '<' then do
      let (s, j) ← tagText (i.advanceBy 2)
      if j.next? = some '>' then .ok (Lexeme.tag none s, j.advance) else .error .malformed
    else if isBlankOrEnd (i.ahead? 1) then .ok (Lexeme.tag none "!", i.advance)
    else if hasHandle i.advance.rest then do
      let (h, j) ← handle i
      let (s, k) ← tagText j
      .ok (Lexeme.tag (some h) s, k)
    else do
      let (s, k) ← tagText i.advance
      .ok (Lexeme.tag (some "!") s, k)
  if isSpaceOrEnd j.next? then .ok (t, j) else .error .malformed

/-! ## Directives -/

/-- Reads a whole number. -/
def digits (i : Input) : Except Refusal (List Char × Input) :=
  let (cs, j) := i.takeWhile Char.isDigit
  if cs.isEmpty then .error .malformed else .ok (cs, j)

/-- Reads the version that a directive tells. -/
def versionNumber (i : Input) : Except Refusal (Directive × Input) := do
  let (major, j) ← digits i.skipSpaces
  if j.next? ≠ some '.' then .error .malformed
  else
    let (_, k) ← digits j.advance
    if isSpaceOrEnd k.next? then .ok (.version major, k) else .error .malformed

/-- Reads a handle and what it stands for. -/
def handleMeaning (i : Input) : Except Refusal (Directive × Input) := do
  let (h, j) ← handle i.skipSpaces
  if j.next? ≠ some ' ' then .error .malformed
  else
    let (t, k) ← tagText j.skipSpaces
    if isSpaceOrEnd k.next? then .ok (.handle h t, k) else .error .malformed

/-- Reads a directive with the rest of its line. -/
def directive (i : Input) : Except Refusal (Lexeme × Input) := do
  let (n, j) ← name i.advance
  if !isSpaceOrEnd j.next? then .error .malformed
  else
    let (d, k) ←
      if n = "YAML" then versionNumber j
      else if n = "TAG" then handleMeaning j
      else .ok (.other, j.skipWhile fun c => !isBreak c)
    let l ← k.restOfLine
    .ok (.directive d, l)

end Yaml
end NodeSchema
