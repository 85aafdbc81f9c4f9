import NodeSchema.Yaml.Value

/-!
# Readers of documents

The value of a document is told by a reader, which comes from elsewhere.  A reader may stop at a
fault of its own, and it puts the elements of a set in the order in which the set shows them.
-/

set_option autoImplicit false

namespace NodeSchema
namespace Yaml

/-- A reader of documents. -/
class DocumentReader where
  /-- The value of the one document of a text. -/
  load : List Char → Except Refusal Value

end Yaml
end NodeSchema
