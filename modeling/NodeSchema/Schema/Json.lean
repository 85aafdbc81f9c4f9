import NodeSchema.Json.Printer
import NodeSchema.Schema.Basic
import NodeSchema.Spelling.Table

/-!
# Schemas as JSON

A schema is an object with its version, its nodes and its tokens.  A type is an object with one
member, whose name tells the kind.  Features and tokens are written in order, so that the text does
not depend on the order in which they were entered.
-/

set_option autoImplicit false

namespace NodeSchema

/-! ## Types -/

namespace SchemaType

mutual
/-- A type as JSON. -/
def toJson : SchemaType → Json
  | .node name => .object [("syn", .string name)]
  | .std name => .object [("std", .string name)]
  | .external name => .object [("proc_macro2", .string name)]
  | .token symbol => .object [("token", .string symbol)]
  | .group name => .object [("group", .string name)]
  | .punctuated element separator =>
    .object [("punctuated",
      .object [("element", toJson element), ("punct", .string separator)])]
  | .option inner => .object [("option", toJson inner)]
  | .box inner => .object [("box", toJson inner)]
  | .vec inner => .object [("vec", toJson inner)]
  | .tuple elements => .object [("tuple", .array (toJsonAll elements))]
/-- Types as JSON. -/
def toJsonAll : List SchemaType → List Json
  | [] => []
  | t :: ts => toJson t :: toJsonAll ts
end

theorem toJsonAll_eq_map (ts : List SchemaType) : toJsonAll ts = ts.map toJson := by
  induction ts with
  | nil => rfl
  | cons t ts ih => simp [toJsonAll, ih]

end SchemaType

/-! ## Nodes -/

/-- A feature as JSON. -/
def FeatureName.toJson : FeatureName → Json
  | .name s => .string s
  | .null => .null
  | .bool b => .bool b
  | .int n => .int n
  | .float x => .float x

namespace Node

/-- The features of a node as JSON; nothing if they have no order. -/
def featuresJson? (fs : List FeatureName) : Option Json :=
  if fs.isEmpty then some (.object [])
  else (FeatureName.sort? fs).map fun sorted =>
    .object [("any", .array (sorted.map FeatureName.toJson))]

/-- The members of a node, each name once: a repeated name keeps its first place and has its last
types. -/
def dataJson : NodeData → List (String × Json)
  | .fields fs =>
    [("fields", .object (Table.ofPairs (fs.map fun f => (f.1, f.2.toJson))).entries)]
  | .variants vs =>
    [("variants", .object
      (Table.ofPairs (vs.map fun v => (v.1, Json.array (v.2.map SchemaType.toJson)))).entries)]
  | .opaque_ => []

/-- A node as JSON; nothing if its features have no order. -/
def toJson? (n : Node) : Option Json := do
  let features ← featuresJson? n.features
  some (.object
    ([("ident", .string n.ident), ("features", features)] ++ dataJson n.data
      ++ (if n.exhaustive then [] else [("exhaustive", .bool false)])))

end Node

/-! ## Schemas -/

namespace Definitions

/-- A schema as JSON; nothing if some features have no order. -/
def toJson? (d : Definitions) : Option Json := do
  let nodes ← d.nodes.mapM Node.toJson?
  some (.object
    [("version", .string d.version), ("types", .array nodes),
      ("tokens", .object
        ((Spelling.sortEntries d.tokens.entries).map fun e => (e.1, Json.string e.2)))])

/-- The text of a schema. -/
def print (d : Definitions) : Except Failure String :=
  match d.toJson? with
  | some v => .ok (String.ofList (v.print ++ ['\n']))
  | none => .error (.unreported .wrongType)

end Definitions
end NodeSchema
