import NodeSchema.Rust.Parser

/-!
# Texts that hold one item

Some texts must hold exactly one item of a given kind: a type on its own, and the declaration
inside a macro.
-/

set_option autoImplicit false

namespace NodeSchema
namespace Rust

/-- Cuts every occurrence of a piece out of a text, from the left, after `skip` characters that
belong to an occurrence. -/
def removeAllFrom (piece : List Char) : Nat → List Char → List Char
  | _, [] => []
  | skip + 1, _ :: rest => removeAllFrom piece skip rest
  | 0, c :: rest =>
    if !piece.isEmpty && piece.isPrefixOf (c :: rest) then
      removeAllFrom piece (piece.length - 1) rest
    else c :: removeAllFrom piece 0 rest

/-- The name of a kind as messages show it. -/
def kindNoun (kind : String) : String :=
  String.ofList (removeAllFrom "_item".toList 0 kind.toList)

/-- What is wrong with items that should be a single one of the kind of the given name: the offset
and the complaint.  The length of the text stands for the place of an absent item. -/
def singleProblem (items : List (Attributed Item)) (kind : String) (length : Nat) :
    Option (Nat × Complaint) :=
  match items with
  | [] => some (length, .expectedDeclaration (kindNoun kind))
  | first :: rest =>
    if first.item.kind.name ≠ kind then
      some (first.item.start, .expectedDeclaration (kindNoun kind))
    else
      match rest with
      | [] => none
      | second :: _ => some (second.item.start, .afterDeclaration)

/-- The path under which a type on its own is shown. -/
def typePath : String := "<type>"

/-- The text that a type on its own is read from. -/
def typeText (text : String) : String := "type __Parsed = " ++ text ++ ";"

/-- Reads a type on its own. -/
def parseType [FileParser] (text : String) : Except Failure TypeExpr := do
  let source := Source.ofString typePath (typeText text)
  let items ← source.items
  match singleProblem items ItemKind.typeAlias.name source.bytes.length with
  | some (offset, complaint) => .error (source.complain offset complaint)
  | none =>
    match items with
    | ⟨_, ⟨.typeAlias type, _, _, _, _⟩⟩ :: _ => .ok type.expr
    | _ => .error (.unparsable source.path)

end Rust
end NodeSchema
