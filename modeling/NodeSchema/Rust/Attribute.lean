import NodeSchema.Rust.Item

/-!
# What attributes say

The attributes that a schema depends on: whether one of a name is there, whether an item is hidden
from documentation, and which file a module is read from.
-/

set_option autoImplicit false

namespace NodeSchema
namespace Rust
namespace Attribute

/-- An attribute of the given name is among them. -/
def has (name : String) (attributes : List Attribute) : Bool :=
  attributes.any fun a => a.name = name

/-- The attribute is a `doc` whose parenthesised arguments begin with `hidden`. -/
def hides (a : Attribute) : Bool :=
  a.name = "doc" &&
    match a.arguments with
    | some (.group o (first :: _) _) => o.text = "(" && first.text = "hidden"
    | _ => false

/-- The attributes hide what they belong to from documentation. -/
def isHidden (attributes : List Attribute) : Bool := attributes.any hides

/-- The file that the first `path` attribute names; it has to be set equal to a plain string,
whose escapes are kept as written. -/
def path (source : Source) (attributes : List Attribute) : Except Failure (Option String) :=
  match attributes.find? fun a => a.name = "path" with
  | none => .ok none
  | some a =>
    match a.value with
    | some (.string text _) => .ok (some (String.ofList (Tree.unquoted text.toList)))
    | _ => .error (source.complain a.start .expectedPathAttribute)

end Attribute
end Rust
end NodeSchema
