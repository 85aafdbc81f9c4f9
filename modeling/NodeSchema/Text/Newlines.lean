import NodeSchema.Text.Utf8

/-!
# Line ends

Texts other than source files are read with every line end as one line feed: a carriage return
followed by a line feed, or standing alone, counts as a line feed.
-/

set_option autoImplicit false

namespace NodeSchema
namespace Text

/-- Every line end becomes one line feed. -/
def unifyNewlines : List Char → List Char
  | '\r' :: '\n' :: rest => '\n' :: unifyNewlines rest
  | c :: rest => (if c = '\r' then '\n' else c) :: unifyNewlines rest
  | [] => []

/-- Reads a text file: well-formed UTF-8, with unified line ends. -/
def readText? (bytes : List UInt8) : Option (List Char) :=
  (decode? bytes).map unifyNewlines

end Text
end NodeSchema
