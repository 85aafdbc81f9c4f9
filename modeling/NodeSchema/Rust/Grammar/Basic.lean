import NodeSchema.Rust.Tree

/-!
# Reading token trees

The grammar of source text is read off token trees.  A `Parser` takes a value from the front of a
list of trees and returns the rest, or refuses.  Operators are read as runs of punctuation
characters that follow each other directly (`sign`), because which of them belong together
depends on the place in the grammar.

`Code` stands for the parts of the grammar that declarations only delimit: values, blocks and
parameter lists.  They nest through delimiters, so the grammar of one depth of nesting is written
in terms of the `Code` of the depth below.
-/

set_option autoImplicit false

namespace NodeSchema
namespace Rust
namespace Grammar

/-- Takes a value from the front of a list of trees. -/
abbrev Parser (α : Type) := List Tree → Option (α × List Tree)

/-- Passes over what stands at the front of a list of trees. -/
abbrev Skipper := List Tree → Option (List Tree)

/-! ## Single tokens -/

/-- Passes over the given word. -/
def word (text : String) : Skipper
  | .leaf t :: rest => if t.isWord text then some rest else none
  | _ => none

/-- Takes any word. -/
def anyWord : Parser Token
  | .leaf t :: rest => if t.kind = .word then some (t, rest) else none
  | _ => none

/-- Passes over one of the given words. -/
def oneWord (texts : List String) : Skipper := fun ts =>
  match anyWord ts with
  | some (t, rest) => if texts.contains t.text then some rest else none
  | none => none

/-- Passes over the given punctuation characters, which follow each other directly. -/
def signFrom (isFirst : Bool) : List Char → Skipper
  | [], ts => some ts
  | c :: cs, .leaf t :: rest =>
    if t.isMark (String.singleton c) && (isFirst || t.isAdjacent) then signFrom false cs rest
    else none
  | _ :: _, _ => none

/-- Passes over an operator. -/
def sign (text : String) : Skipper := signFrom true text.toList

/-- Takes what the given delimiters enclose. -/
def group (opener : String) : Parser (List Tree)
  | .group o body _ :: rest => if o.text = opener then some (body, rest) else none
  | _ => none

/-- Passes over what the given delimiters enclose if it satisfies a test. -/
def groupThat (opener : String) (accepts : List Tree → Bool) : Skipper := fun ts =>
  match group opener ts with
  | some (body, rest) => if accepts body then some rest else none
  | none => none

/-- Passes over a group with any delimiters. -/
def anyGroup : Parser Tree
  | t@(.group _ _ _) :: rest => some (t, rest)
  | _ => none

/-! ## Combinations -/

/-- The first of two readings that succeeds. -/
def either {α : Type} (p q : Parser α) : Parser α := fun ts => (p ts).or (q ts)

/-- The first of several ways to pass over the front. -/
def firstOf (ps : List Skipper) : Skipper := fun ts => ps.findSome? fun p => p ts

/-- Passes over something if it is there. -/
def optionally (p : Skipper) (ts : List Tree) : List Tree := (p ts).getD ts

/-- Passes over any number of things, at most `fuel` of them. -/
def manyFuel (p : Skipper) : Nat → List Tree → List Tree
  | 0, ts => ts
  | fuel + 1, ts =>
    match p ts with
    | some rest => manyFuel p fuel rest
    | none => ts

/-- Passes over any number of things. -/
def many (p : Skipper) (ts : List Tree) : List Tree := manyFuel p ts.length ts

/-- Takes a whole list of values with commas between them, where a last comma may follow the last
value or stand alone. -/
def commaListFuel {α : Type} (p : Parser α) : Nat → List Tree → Option (List α)
  | _, [] => some []
  | 0, _ => none
  | fuel + 1, ts => do
    let (a, rest) ← p ts
    match rest with
    | [] => some [a]
    | _ =>
      let after ← sign "," rest
      match after with
      | [] => some [a]
      | _ => (commaListFuel p fuel after).map (a :: ·)

/-- Reads all of a list as values with commas between them; a comma may also follow the last
one, or stand alone. -/
def commaList {α : Type} (p : Parser α) (ts : List Tree) : Option (List α) :=
  if (sign "," ts) matches some [] then some [] else commaListFuel p ts.length ts

/-- A value read as a skipper. -/
def skip {α : Type} (p : Parser α) : Skipper := fun ts => (p ts).map Prod.snd

/-- A skipper that reads a value of no content. -/
def unit (p : Skipper) : Parser Unit := fun ts => (p ts).map fun rest => ((), rest)

/-! ## What declarations only delimit -/

/-- The parts of the grammar that nest through delimiters. -/
structure Code where
  /-- Passes over a value. -/
  value : Skipper
  /-- Passes over a pattern. -/
  pattern : Skipper
  /-- The inside of a block. -/
  block : List Tree → Bool
  /-- The inside of a parameter list. -/
  parameters : List Tree → Bool
  /-- The inside of a module, a trait or an implementation. -/
  declarations : List Tree → Bool

/-- No part at all: the code of nesting depth zero. -/
def Code.none : Code :=
  ⟨fun _ => .none, fun _ => .none, fun _ => false, fun _ => false, fun _ => false⟩

end Grammar
end Rust
end NodeSchema
