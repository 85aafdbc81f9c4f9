import NodeSchema.Schema.Introspect

/-!
# Schema types as written types

`SchemaType.written` writes a schema type the way a declaration would: names as paths of one
segment, tokens as the macro around one of their spellings, and the wrappers with their arguments.
-/

set_option autoImplicit false

namespace NodeSchema

open Rust

namespace SchemaType

/-- A path of one segment. -/
def plainPath (name : String) (arguments : List TypeExpr) : TypeExpr := .path [name] arguments

/-- A token as it is written, given its spelling. -/
def writtenToken (spelling : String) : TypeExpr := .macroCall Scope.tokenMacro spelling

mutual
/-- The type as it is written, given a spelling for every symbol. -/
def written (spelling : String → String) : SchemaType → TypeExpr
  | .node name | .std name | .external name | .group name => plainPath name []
  | .token symbol => writtenToken (spelling symbol)
  | .punctuated element separator =>
    plainPath "Punctuated" [written spelling element, writtenToken (spelling separator)]
  | .option inner => plainPath "Option" [written spelling inner]
  | .box inner => plainPath "Box" [written spelling inner]
  | .vec inner => plainPath "Vec" [written spelling inner]
  | .tuple elements => .tuple (writtenAll spelling elements)
/-- The types as they are written, one by one. -/
def writtenAll (spelling : String → String) : List SchemaType → List TypeExpr
  | [] => []
  | t :: ts => written spelling t :: writtenAll spelling ts
end

end SchemaType
end NodeSchema
