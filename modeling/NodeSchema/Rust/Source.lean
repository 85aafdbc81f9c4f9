import NodeSchema.Failure

/-!
# Source texts

A source text is its bytes together with the path under which it is shown.  Places in it are byte
offsets.
-/

set_option autoImplicit false

namespace NodeSchema
namespace Rust

/-- A source text and the path it is shown under. -/
structure Source where
  path : String
  bytes : List UInt8
deriving DecidableEq, Repr

namespace Source

/-- A source text given as characters. -/
def ofString (path text : String) : Source := ⟨path, Text.bytesOf text⟩

/-- A complaint about a place of this text. -/
def complain (s : Source) (offset : Nat) (complaint : Complaint) : Failure :=
  .located s.path (.inBytes s.bytes offset) complaint

/-- The bytes from one offset up to another. -/
def slice (s : Source) (start stop : Nat) : List UInt8 := (s.bytes.take stop).drop start

end Source
end Rust
end NodeSchema
