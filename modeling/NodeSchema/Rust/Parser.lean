import NodeSchema.Rust.Item
import NodeSchema.Rust.Source

/-!
# Parsers of source text

What a file holds is told by a parser, which comes from elsewhere (`FileParser`).  It gives the
entries of a text, or it tells where the text goes wrong; a text may also nest too deep for what is
read from it.  The library asks nothing more of a parser than this; what a result needs to know of
one is a hypothesis of the result.
-/

set_option autoImplicit false

namespace NodeSchema
namespace Rust

/-- Why a text has no entries. -/
inductive SyntaxError
  /-- The text goes wrong at an offset. -/
  | located (offset : Nat) (complaint : Complaint)
  /-- The text goes wrong, and nothing tells where. -/
  | unlocated
  /-- The text nests too deep. -/
  | tooDeep
deriving DecidableEq, Repr

/-- A parser of source text. -/
class FileParser where
  /-- The entries of a text. -/
  parse : List UInt8 → Except SyntaxError (List (Entry Item))

/-- The failure of a text that has no entries; `complain` tells a complaint about an offset. -/
def SyntaxError.failure (path : String) (complain : Nat → Complaint → Failure) :
    SyntaxError → Failure
  | .located offset complaint => complain offset complaint
  | .unlocated => .unparsable path
  | .tooDeep => .unreported .endless

namespace Source

variable [FileParser]

/-- Reads a source text as items with their attributes. -/
def items (s : Source) : Except Failure (List (Attributed Item)) :=
  match FileParser.parse s.bytes with
  | .ok es => .ok (itemsOf es)
  | .error e => .error (e.failure s.path s.complain)

end Source
end Rust
end NodeSchema
