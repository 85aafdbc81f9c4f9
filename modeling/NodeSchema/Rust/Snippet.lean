import NodeSchema.Rust.Single

/-!
# Snippets

A snippet is source text put together from slices of another source text and pieces written in
between.  A place in a snippet is traced back to a place of the text that it came from: inside a
slice to the very byte that was copied, elsewhere to the end of the last slice before it, or to
an anchor if there is none.
-/

set_option autoImplicit false

namespace NodeSchema
namespace Rust

/-- A piece of a snippet. -/
inductive Piece
  /-- Text written in between. -/
  | written (bytes : List UInt8)
  /-- A slice that begins at an offset of the origin. -/
  | copied (start : Nat) (bytes : List UInt8)
deriving DecidableEq, Repr

/-- The bytes of a piece. -/
def Piece.bytes : Piece → List UInt8
  | .written bs => bs
  | .copied _ bs => bs

/-- A text put together from pieces. -/
structure Snippet where
  origin : Source
  anchor : Nat
  pieces : List Piece
deriving Repr

namespace Snippet

/-- A snippet with no pieces. -/
def empty (origin : Source) (anchor : Nat) : Snippet := ⟨origin, anchor, []⟩

/-- Adds a written piece. -/
def write (s : Snippet) (text : String) : Snippet :=
  { s with pieces := s.pieces ++ [.written (Text.bytesOf text)] }

/-- Adds a slice of the origin. -/
def copy (s : Snippet) (start stop : Nat) : Snippet :=
  { s with pieces := s.pieces ++ [.copied start (s.origin.slice start stop)] }

/-- The text of a snippet. -/
def bytes (s : Snippet) : List UInt8 := s.pieces.flatMap Piece.bytes

/-- Traces an offset into pieces that begin at `position` back to the origin; `best` is the place
for what is in no slice. -/
def traceFrom (offset position best : Nat) : List Piece → Nat
  | [] => best
  | .written bs :: ps => traceFrom offset (position + bs.length) best ps
  | .copied start bs :: ps =>
    let stop := position + bs.length
    if position ≤ offset && offset < stop then start + (offset - position)
    else traceFrom offset stop (if stop ≤ offset then start + bs.length else best) ps

/-- The place of the origin that an offset into a snippet comes from. -/
def trace (s : Snippet) (offset : Nat) : Nat := traceFrom offset 0 s.anchor s.pieces

/-- A complaint about an offset into a snippet, told of the place that it comes from. -/
def complain (s : Snippet) (offset : Nat) (complaint : Complaint) : Failure :=
  s.origin.complain (s.trace offset) complaint

/-- Reads a snippet that holds exactly one item of the kind of the given name. -/
def item [FileParser] (s : Snippet) (kind : String) : Except Failure (Attributed Item) :=
  match FileParser.parse s.bytes with
  | .error e => .error (e.failure s.origin.path s.complain)
  | .ok es =>
    let items := itemsOf es
    match singleProblem items kind s.bytes.length with
    | some (offset, complaint) => .error (s.complain offset complaint)
    | none =>
      match items with
      | first :: _ => .ok first
      | [] => .error (.unparsable s.origin.path)

end Snippet
end Rust
end NodeSchema
