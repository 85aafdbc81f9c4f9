import NodeSchema.Feature.Basic
import NodeSchema.Rust.Attribute

/-!
# Declarations of nodes

A node of a syntax tree is declared as a struct or as an enum.  A declaration is what the source
says, before its types are looked up.
-/

set_option autoImplicit false

namespace NodeSchema

open Rust

/-- A variant of a node: what it carries, and whether it is hidden from documentation. -/
structure VariantDeclaration where
  name : String
  members : List TypeExpr
  isHidden : Bool
deriving DecidableEq, Repr

/-- What a node consists of. -/
inductive Members
  | struct (fields : List Field)
  | enum (variants : List VariantDeclaration) (nonExhaustive : Bool)
deriving DecidableEq, Repr

/-- The declaration of a node. -/
structure Declaration where
  ident : String
  members : Members
  features : Features
deriving DecidableEq, Repr

namespace Declaration

/-- Adds a gate to a declaration. -/
def gated (d : Declaration) (gate : Features) : Except Failure Declaration :=
  (d.features.merge? gate).map fun f => { d with features := f }

/-- The declaration that a struct makes: its fields must have names, or it has none. -/
def ofStruct (ident : String) (body : StructBody) : Except Failure Declaration :=
  match body with
  | .named fields => .ok ⟨ident, .struct ((Entry.items fields).map FieldNode.field), .always⟩
  | .unit => .ok ⟨ident, .struct [], .always⟩
  | .positional => .error (.unsupportedStruct ident)

/-- The declaration that a variant makes: what it carries must have no names. -/
def ofVariant (ident : String) (v : Attributed Variant) : Except Failure VariantDeclaration :=
  match v.item.payload with
  | .unit => .ok ⟨v.item.name, [], Attribute.isHidden v.attributes⟩
  | .positional types =>
    .ok ⟨v.item.name, types.map TypeNode.expr, Attribute.isHidden v.attributes⟩
  | .named => .error (.unsupportedVariant ident v.item.name)

/-- The declaration that an enum makes. -/
def ofEnum (ident : String) (attributes : List Attribute) (variants : List (Entry Variant)) :
    Except Failure Declaration := do
  let vs ← (Entry.pair variants).mapM (ofVariant ident)
  .ok ⟨ident, .enum vs (Attribute.has "non_exhaustive" attributes), .always⟩

/-- The declaration that an item makes, if it is a struct or an enum. -/
def ofItem (i : Attributed Item) : Option (Except Failure Declaration) :=
  match i.item.body with
  | .struct body => some (ofStruct (i.item.name.getD "") body)
  | .enum variants => some (ofEnum (i.item.name.getD "") i.attributes variants)
  | _ => none

end Declaration
end NodeSchema
