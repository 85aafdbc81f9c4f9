import NodeSchema.Yaml.Scalar.Quoted

/-!
# Plain scalars

A scalar without quotes ends before a colon that is followed by a blank, before a comment, and
before a line that is not indented enough.  Within brackets and braces it also ends before the
characters that have a meaning there.
-/

set_option autoImplicit false

namespace NodeSchema
namespace Yaml
namespace Plain

/-- The characters with a meaning within brackets and braces. -/
def flowIndicators : List Char := [',', '[', ']', '\x7b', '\x7d']

/-- The number of characters up to the end of a word. -/
def wordLength (inFlow : Bool) : List Char → Nat
  | [] => 0
  | c :: rest =>
    if isBlankOrEnd (some c) then 0
    else if c = ':' && (isBlankOrEnd rest.head?
        || (inFlow && rest.head?.any fun d => flowIndicators.contains d)) then 0
    else if inFlow && (c = '?' || flowIndicators.contains c) then 0
    else wordLength inFlow rest + 1

/-- Takes the line ends and spaces after a line end, up to a document marker, of which it tells
whether there is one. -/
def breaks : Nat → Input → List Char × Input × Bool
  | 0, i => ([], i, false)
  | fuel + 1, i =>
    match i.skipSpaces.lineBreak? with
    | none => ([], i.skipSpaces, false)
    | some (c, j) =>
      if j.isMarker then ([], j, true)
      else
        let (cs, k, stops) := breaks fuel j
        (c :: cs, k, stops)

/-- What stands between two words. -/
structure Gap where
  /-- What it stands for; nothing if no word can follow. -/
  text : List Char
  after : Input
  crossesLine : Bool

/-- The gap after a word. -/
def gap (i : Input) : Gap :=
  let (spaces, j) := i.takeWhile (· = ' ')
  match j.lineBreak? with
  | none => ⟨spaces, j, false⟩
  | some (first, k) =>
    if k.isMarker then ⟨[], k, true⟩
    else
      let (others, l, stops) := breaks (k.rest.length + 1) k
      ⟨if stops then [] else Quoted.folded first others, l, true⟩

/-- A plain scalar: its text, what is left, and whether a line end was passed after it. -/
structure Text where
  text : List Char
  after : Input
  crossesLine : Bool

/-- Reads words and the gaps between them; `indent` is the least column of further lines. -/
def words (inFlow : Bool) (indent : Nat) : Nat → Input → Bool → Text
  | 0, i, crossed => ⟨[], i, crossed⟩
  | fuel + 1, i, crossed =>
    let n := wordLength inFlow i.rest
    if i.next? = some '#' || n = 0 then ⟨[], i, crossed⟩
    else
      let word := i.rest.take n
      let g := gap (i.advanceBy n)
      if g.text.isEmpty || g.after.next? = some '#'
          || (!inFlow && decide (g.after.column < indent)) then ⟨word, g.after, g.crossesLine⟩
      else
        let more := words inFlow indent fuel g.after g.crossesLine
        ⟨if more.text.isEmpty then word else word ++ g.text ++ more.text, more.after,
          more.crossesLine⟩

/-- Reads a plain scalar. -/
def read (inFlow : Bool) (indent : Nat) (i : Input) : Text :=
  words inFlow indent (i.rest.length + 1) i false

/-- A plain scalar starts here. -/
def starts (inFlow : Bool) (i : Input) : Bool :=
  match i.rest with
  | [] => false
  | c :: rest =>
    if isBlankOrEnd (some c) then false
    else if c = '-' then !isBlankOrEnd rest.head?
    else if c = '?' || c = ':' then !inFlow && !isBlankOrEnd rest.head?
    else
      !(flowIndicators.contains c
        || ['#', '&', '*', '!', '|', '>', '\'', '"', '%', '@', Char.ofNat 0x60].contains c)

end Plain
end Yaml
end NodeSchema
