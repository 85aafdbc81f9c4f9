import NodeSchema.Declaration.Recognize

/-!
# Writing declarations

`Declaration.print` writes a declaration as the macro call that it is recognised in: one field or
variant a line, with a comma after each.
-/

set_option autoImplicit false

namespace NodeSchema
namespace Declaration

open Rust

/-- A field as it is written. -/
def printField (f : Field) : String :=
  (if f.isPublic then "pub " else "") ++ f.name ++ ": " ++ f.type.describe ++ ",\n"

/-- What a variant carries, as it is written. -/
def printPayload (members : List TypeExpr) : String :=
  if members.isEmpty then ""
  else "(" ++ ", ".intercalate (members.map TypeExpr.describe) ++ ")"

/-- A variant as it is written. -/
def printVariant (v : VariantDeclaration) : String :=
  (if v.isHidden then "#[doc(hidden)] " else "") ++ v.name ++ printPayload v.members ++ ",\n"

/-- Text between braces. -/
def braced (body : String) : String := "\x7b\n" ++ body ++ "\x7d\n"

/-- A macro call. -/
def printCall (form : Form) (body : String) : String := form.name ++ "! " ++ braced body

/-- A declaration as the macro call that it is recognised in. -/
def print (d : Declaration) : String :=
  match d.members with
  | .struct fields =>
    let marker := if d.features = .ofList [fullMarker] then "#" ++ fullMarker ++ " " else ""
    printCall .struct
      ("pub struct " ++ d.ident ++ " " ++ marker ++ braced (String.join (fields.map printField)))
  | .enum variants nonExhaustive =>
    let mark := if nonExhaustive then "#[non_exhaustive]\n" else ""
    printCall .enum
      (mark ++ "pub enum " ++ d.ident ++ " " ++ braced (String.join (variants.map printVariant)))

end Declaration
end NodeSchema
