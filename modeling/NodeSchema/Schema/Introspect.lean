import NodeSchema.Alias
import NodeSchema.Declaration.Basic
import NodeSchema.Schema.Basic

/-!
# From written types to schema types

Looks up the types of a declaration among the known nodes, aliases, tokens and leaves.  Of a path
only the last segment counts.  The wrappers `Option`, `Vec` and `Box` take their first argument;
`Punctuated` takes its first as element and its last as separator, which has to be a token.

A struct with a field that is not public is recorded without its fields, and the hidden variants of
an enum are left out; neither is looked at.
-/

set_option autoImplicit false

namespace NodeSchema

open Rust

/-- The names that are leaves, by the kind of leaf. -/
structure LeafTables where
  groups : List String
  external : List String
  std : List String
deriving DecidableEq, Repr

namespace LeafTables

/-- The delimiters. -/
def defaultGroups : List String := ["Brace", "Bracket", "Group", "Paren"]

/-- The leaves of the token layer. -/
def defaultExternal : List String := ["Ident", "Literal", "Span", "TokenStream"]

/-- The primitive leaves. -/
def defaultStd : List String := ["String", "bool", "u32", "usize"]

/-- The leaves that are known without configuration. -/
def default : LeafTables := ⟨defaultGroups, defaultExternal, defaultStd⟩

end LeafTables

/-- What types are looked up in. -/
structure Scope where
  /-- The names of the nodes. -/
  nodes : List String
  aliases : Table String
  /-- From spellings to symbols. -/
  tokens : Table String
  leaves : LeafTables
deriving Repr

namespace Scope

/-- The macro that names a token in type position. -/
def tokenMacro : String := "Token"

/-- The type that a name without meaning of its own stands for: a leaf or a node. -/
def named (s : Scope) (name : String) : Except Failure SchemaType :=
  if s.leaves.groups.contains name then .ok (.group name)
  else if s.leaves.external.contains name then .ok (.external name)
  else if s.leaves.std.contains name then .ok (.std name)
  else (Alias.resolve s.aliases s.nodes.contains name).map .node

/-- An argument that has to be a type, with what the lookup of it gave. -/
def typeArgument (shown : String) (written : Option TypeExpr)
    (found : Option (Except Failure SchemaType)) : Except Failure SchemaType :=
  match written, found with
  | some (.argument _), _ | none, _ | _, none => .error (.missingTypeArgument shown)
  | some _, some r => r

mutual
/-- Looks up a type. -/
def introspect (s : Scope) : TypeExpr → Except Failure SchemaType
  | .path segments arguments =>
    let name := TypeExpr.lastSegment segments
    let shown := (TypeExpr.path segments arguments).describe
    let found := introspectAll s arguments
    let first := typeArgument shown arguments.head? found.head?
    let last := typeArgument shown arguments.getLast? found.getLast?
    if name = "Option" then first.map .option
    else if name = "Punctuated" then
      match first, last with
      | .error e, _ => .error e
      | .ok _, .error e => .error e
      | .ok element, .ok (.token symbol) => .ok (.punctuated element symbol)
      | .ok _, .ok _ =>
        .error (.separatorNotToken ((arguments.getLast?.map TypeExpr.describe).getD ""))
    else if name = "Vec" then first.map .vec
    else if name = "Box" then first.map .box
    else s.named name
  | .tuple elements =>
    ((introspectAll s elements).mapM id).map .tuple
  | .macroCall name tokens =>
    if name = tokenMacro then
      match s.tokens.find? tokens with
      | some symbol => .ok (.token symbol)
      | none => .error (.unknownToken tokens)
    else .error (.unsupportedType (TypeExpr.macroCall name tokens).describe)
  | .argument text => .error (.unsupportedType text)
  | .other text => .error (.unsupportedType text)
/-- Looks up types one by one. -/
def introspectAll (s : Scope) : List TypeExpr → List (Except Failure SchemaType)
  | [] => []
  | t :: ts => introspect s t :: introspectAll s ts
end

theorem introspectAll_eq_map (s : Scope) (ts : List TypeExpr) :
    introspectAll s ts = ts.map (introspect s) := by
  induction ts with
  | nil => rfl
  | cons t ts ih => simp [introspectAll, ih]

/-- Looks up the types of fields. -/
def fields (s : Scope) (fs : List Field) : Except Failure (List (String × SchemaType)) :=
  fs.mapM fun f => (s.introspect f.type).map fun t => (f.name, t)

/-- Looks up the types of variants. -/
def variants (s : Scope) (vs : List VariantDeclaration) :
    Except Failure (List (String × List SchemaType)) :=
  vs.mapM fun v => (v.members.mapM s.introspect).map fun ts => (v.name, ts)

/-- The node that a declaration makes. -/
def node (s : Scope) (d : Declaration) : Except Failure Node :=
  let features := d.features.names.map FeatureName.name
  match d.members with
  | .struct fs =>
    if fs.all Field.isPublic then
      (s.fields fs).map fun ts => ⟨d.ident, features, .fields ts, true⟩
    else .ok ⟨d.ident, features, .opaque_, true⟩
  | .enum vs nonExhaustive =>
    (s.variants (vs.filter fun v => !v.isHidden)).map fun ts =>
      ⟨d.ident, features, .variants ts, !(nonExhaustive || vs.any VariantDeclaration.isHidden)⟩

end Scope
end NodeSchema
