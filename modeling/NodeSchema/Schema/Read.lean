import NodeSchema.Failure
import NodeSchema.Json.Reader
import NodeSchema.Schema.Basic

/-!
# Reading schemas

Reads a schema from JSON text.  The shape of types, nodes and the schema itself is checked; where a
name is due, any value stands for its text.
-/

set_option autoImplicit false

namespace NodeSchema

/-! ## Types -/

namespace SchemaType

mutual
/-- Reads a type. -/
def ofJson : Json → Except Failure SchemaType
  | .object [(tag, value)] =>
    if tag = "syn" then .ok (.node value.asText)
    else if tag = "std" then .ok (.std value.asText)
    else if tag = "proc_macro2" then .ok (.external value.asText)
    else if tag = "token" then .ok (.token value.asText)
    else if tag = "group" then .ok (.group value.asText)
    else if tag = "option" then (ofJson value).map .option
    else if tag = "box" then (ofJson value).map .box
    else if tag = "vec" then (ofJson value).map .vec
    else if tag = "punctuated" then ofPunctuated tag value
    else if tag = "tuple" then ofTuple tag value
    else .error (.unknownTypeTag tag)
  | v => .error (.notTypeObject v.display)
/-- Reads the elements and the separator of a punctuated type. -/
def ofPunctuated (tag : String) : Json → Except Failure SchemaType
  | .object members =>
    (ofElement members).map fun e =>
      .punctuated e ((Json.member? members "punct").getD .null).asText
  | _ => .error (.unknownTypeTag tag)
/-- Reads the type of the elements of a punctuated type. -/
def ofElement : List (String × Json) → Except Failure SchemaType
  | [] => .error (.notTypeObject Json.null.display)
  | (name, value) :: rest => if name = "element" then ofJson value else ofElement rest
/-- Reads the elements of a tuple. -/
def ofTuple (tag : String) : Json → Except Failure SchemaType
  | .array items => (ofJsonAll items).map .tuple
  | _ => .error (.unknownTypeTag tag)
/-- Reads types, up to the first that is none. -/
def ofJsonAll : List Json → Except Failure (List SchemaType)
  | [] => .ok []
  | v :: vs => do
    let t ← ofJson v
    let ts ← ofJsonAll vs
    .ok (t :: ts)
end

end SchemaType

/-! ## Nodes -/

namespace Node

/-- What a value gives when it is gone through: the items of a list, the characters of a string,
the names of an object. -/
def itemsOf : Json → Except Failure (List Json)
  | .array items => .ok items
  | .string s => .ok (s.toList.map fun c => .string (String.singleton c))
  | .object members => .ok (members.map fun m => .string m.1)
  | _ => .error (.unreported .wrongType)

/-- Reads the fields of a node. -/
def readFields : List (String × Json) → Except Failure (List (String × SchemaType))
  | [] => .ok []
  | (name, value) :: rest => do
    let t ← SchemaType.ofJson value
    let ts ← readFields rest
    .ok ((name, t) :: ts)

/-- Reads the variants of a node. -/
def readVariants : List (String × Json) → Except Failure (List (String × List SchemaType))
  | [] => .ok []
  | (name, value) :: rest => do
    let items ← itemsOf value
    let ts ← SchemaType.ofJsonAll items
    let vs ← readVariants rest
    .ok ((name, ts) :: vs)

/-- Reads what a node consists of. -/
def readData (members : List (String × Json)) : Except Failure NodeData :=
  match Json.member? members "fields" with
  | some (.object fields) => (readFields fields).map .fields
  | _ =>
    match Json.member? members "variants" with
    | some (.object variants) => (readVariants variants).map .variants
    | _ => .ok .opaque_

/-- Reads a feature. -/
def readFeature : Json → Except Failure FeatureName
  | .string s => .ok (.name s)
  | .null => .ok .null
  | .bool b => .ok (.bool b)
  | .int n => .ok (.int n)
  | .float x => .ok (.float x)
  | .array _ | .object _ => .error (.unreported .wrongType)

/-- Reads the features of a node; where none are listed there are none. -/
def readFeatures (members : List (String × Json)) : Except Failure (List FeatureName) :=
  match Json.member? members "features" with
  | some (.object features) =>
    match Json.member? features "any" with
    | some listed => do
      let items ← itemsOf listed
      let fs ← items.mapM readFeature
      .ok (FeatureName.distinct fs)
    | none => .ok []
  | _ => .ok []

/-- Reads a node. -/
def ofJson (v : Json) : Except Failure Node :=
  match v with
  | .object members =>
    match Json.member? members "ident" with
    | some (.string ident) => do
      let data ← readData members
      let features ← readFeatures members
      .ok ⟨ident, features, data,
        ((Json.member? members "exhaustive").getD (.bool true)).isTruthy⟩
    | _ => .error (.notNodeObject v.display)
  | _ => .error (.notNodeObject v.display)

end Node

/-! ## Schemas -/

namespace Definitions

/-- Reads a schema from a value. -/
def ofJson : Json → Except Failure Definitions
  | .object members =>
    match Json.member? members "types", Json.member? members "tokens" with
    | some (.array types), some (.object tokens) => do
      let nodes ← types.mapM Node.ofJson
      .ok ⟨((Json.member? members "version").getD (.string "")).asText, nodes,
        ⟨tokens.map fun t => (t.1, t.2.asText)⟩⟩
    | _, _ => .error .schemaPartsMissing
  | _ => .error .notSchemaObject

/-- A flaw of a text with its place, counted from one, and with the characters before it. -/
def flawText (text : List Char) (flaw : Json.Flaw) (offset : Nat) : String :=
  let p := Text.Position.inChars text offset
  flaw.text ++ ": line " ++ toString p.line ++ " column " ++ toString p.column ++ " (char "
    ++ toString offset ++ ")"

/-- Reads a schema from text. -/
def read (text : String) : Except Failure Definitions :=
  let cs := text.toList
  match Json.read cs with
  | .ok v => ofJson v
  | .error (.flaw flaw offset) => .error (.invalidJson (flawText cs flaw offset))
  | .error .numberTooLong => .error (.unreported .badValue)

end Definitions
end NodeSchema
