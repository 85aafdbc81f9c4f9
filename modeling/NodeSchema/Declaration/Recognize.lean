import NodeSchema.Declaration.Basic
import NodeSchema.Rust.Cursor
import NodeSchema.Rust.Snippet
import NodeSchema.Text.PathName

/-!
# Declarations in macro calls

Nodes are declared by calls of three macros.  Each call holds a struct or an enum in a form that
is not quite an item: a marker may follow the name, and in one form every variant wraps the node of
its own type.  A declaration is recognised by rebuilding an ordinary item from slices of the call
and reading that; complaints are traced back to the call.
-/

set_option autoImplicit false

namespace NodeSchema
namespace Declaration

open Rust

variable [FileParser]

/-! ## The three macros -/

/-- The macros that declare nodes. -/
inductive Form
  | struct
  | enum
  | enumOfStructs
deriving DecidableEq, Repr

/-- The name of a macro. -/
def Form.name : Form → String
  | .struct => "ast_struct"
  | .enum => "ast_enum"
  | .enumOfStructs => "ast_enum_of_structs"

/-- The macro of a name. -/
def Form.ofName? (name : String) : Option Form :=
  [Form.struct, .enum, .enumOfStructs].find? fun f => f.name = name

/-- The marker after the name of a struct that exists only with the feature of the same name. -/
def fullMarker : String := "full"

/-- The marker after the name of an enum that is no part of a schema. -/
def noVisitMarker : String := "no_visit"

/-- Adds the rest of a group to a snippet. -/
def copyRest (s : Snippet) (c : Cursor) : Snippet :=
  if c.atEnd then s else s.copy c.offset c.close

/-- Adds attributes to a snippet, and what separates them from what follows. -/
def copyAttributes (s : Snippet) (range : Option (Nat × Nat)) (separator : String) : Snippet :=
  match range with
  | some (start, stop) => (s.copy start stop).write separator
  | none => s

/-- Recognises `#[attributes] pub struct Name #full body`. -/
def recognizeStruct (source : Source) (g : Tree) : Except Failure Declaration := do
  let (_, c) := (Cursor.ofGroup source g).skipAttributes
  let (_, c) ← c.expect "pub"
  let (_, c) ← c.expect "struct"
  let (ident, c) ← c.expectIdentifier
  let (isFull, c) := c.eatMarker fullMarker
  let s := (Snippet.empty source c.offset).write ("pub struct " ++ ident ++ " ")
  let i ← (copyRest s c).item ItemKind.struct.name
  match i.item.body with
  | .struct body =>
    let d ← ofStruct (i.item.name.getD "") body
    .ok { d with features := if isFull then .ofList [fullMarker] else .always }
  | _ => .error (.unparsable source.path)

/-- Reads the enum that a snippet holds. -/
def enumOf (s : Snippet) : Except Failure Declaration := do
  let i ← s.item ItemKind.enum.name
  match i.item.body with
  | .enum variants => ofEnum (i.item.name.getD "") i.attributes variants
  | _ => .error (.unparsable s.origin.path)

/-- Recognises `#[attributes] pub enum Name body`; there is no declaration if `#no_visit` follows
the name. -/
def recognizeEnum (source : Source) (g : Tree) : Except Failure (Option Declaration) := do
  let (attributes, c) := (Cursor.ofGroup source g).skipAttributes
  let (_, c) ← c.expect "pub"
  let (_, c) ← c.expect "enum"
  let (ident, c) ← c.expectIdentifier
  let (isExcluded, c) := c.eatMarker noVisitMarker
  if isExcluded then .ok none
  else
    let s := copyAttributes (Snippet.empty source c.offset) attributes "\n"
    let s := s.write ("pub enum " ++ ident ++ " ")
    let d ← enumOf (copyRest s c)
    .ok (some d)

/-- Adds the entries of an enum whose variants wrap nodes to a snippet, each with a comma of its
own. -/
def copyEntries : Nat → Cursor → Snippet → Except Failure Snippet
  | 0, _, s => .ok s
  | fuel + 1, c, s =>
    if c.atEnd then .ok s
    else do
      let (attributes, c) := c.skipAttributes
      let s := copyAttributes s attributes " "
      let start := c.offset
      let (name, c) ← c.expectIdentifier
      let s := s.copy start (start + (Text.bytesOf name).length)
      let (s, c) ← match c.peek 0 with
        | some t =>
          if t.opener? = some "(" then
            if Text.isPath t.renderBody then .ok (s.copy t.start t.stop, c.advance 1)
            else .error (c.source.complain t.start .expectedPath)
          else .ok (s, c)
        | none => .ok (s, c)
      let (_, c) ← c.expect ","
      copyEntries fuel c (s.write ",\n")

/-- Recognises `#[attributes] pub enum Name { Variant(path), Variant, }`. -/
def recognizeEnumOfStructs (source : Source) (g : Tree) : Except Failure Declaration := do
  let (attributes, c) := (Cursor.ofGroup source g).skipAttributes
  let (_, c) ← c.expect "pub"
  let (_, c) ← c.expect "enum"
  let (ident, c) ← c.expectIdentifier
  let (body, c) ← c.expectGroup "\x7b"
  let _ ← c.expectEnd
  let s := copyAttributes (Snippet.empty source body.start) attributes "\n"
  let s := s.write ("pub enum " ++ ident ++ " \x7b\n")
  let entries := Cursor.ofGroup source body
  let s ← copyEntries (entries.tokens.length + 1) entries s
  enumOf (s.write "\x7d\n")

/-- Recognises the call of a macro; there is no declaration in a call of any other macro. -/
def recognize (source : Source) (call : MacroCall) : Except Failure (Option Declaration) :=
  match Form.ofName? call.name with
  | some .struct => (recognizeStruct source call.arguments).map some
  | some .enum => recognizeEnum source call.arguments
  | some .enumOfStructs => (recognizeEnumOfStructs source call.arguments).map some
  | none => .ok none

end Declaration
end NodeSchema
