import NodeSchema.Rust.Grammar.Value
import NodeSchema.Rust.Parser

/-!
# The grammar of files

The parser that the program uses: a file is read off the trees of its text.  Where a text goes wrong
is not told.
-/

set_option autoImplicit false

namespace NodeSchema
namespace Rust

namespace Tree

mutual
/-- How deeply delimiters nest in a tree. -/
def depth : Tree → Nat
  | .leaf _ => 0
  | .group _ body _ => depthList body + 1
/-- How deeply delimiters nest in trees. -/
def depthList : List Tree → Nat
  | [] => 0
  | t :: ts => max (depth t) (depthList ts)
end

end Tree

/-- Reads all of the trees of a file as entries. -/
def entriesOf (ts : List Tree) : Option (List (Entry Item)) :=
  Grammar.entries (.ofDepth (Tree.depthList ts + 1)) ts

/-- A file is read off its trees. -/
instance Grammar.fileParser : FileParser where
  parse bytes :=
    match trees? bytes >>= entriesOf with
    | some es => .ok es
    | none => .error .unlocated

theorem Grammar.parse_eq_ok {bytes : List UInt8} {es : List (Entry Item)} :
    Grammar.fileParser.parse bytes = .ok es ↔ trees? bytes >>= entriesOf = some es := by
  show (match trees? bytes >>= entriesOf with
    | some es => Except.ok es
    | none => .error SyntaxError.unlocated) = .ok es ↔ _
  cases trees? bytes >>= entriesOf with
  | none => exact ⟨nofun, nofun⟩
  | some es' =>
    exact ⟨fun h ↦ congrArg some (Except.ok.inj h), fun h ↦ congrArg Except.ok (Option.some.inj h)⟩

end Rust
end NodeSchema
