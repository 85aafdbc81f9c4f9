import NodeSchema.Rust.TypeNode

/-!
# Items of source text

The items of a file, of a struct and of an enum, as far as schemas depend on them.  Comments,
attributes and items stand side by side in a list as `Entry` values; `Entry.pair` gives every item
the outer attributes written since the item before it.
-/

set_option autoImplicit false

namespace NodeSchema
namespace Rust

/-! ## Attributes -/

/-- What an attribute is set equal to. -/
inductive AttributeValue
  /-- A string between plain quotes, as written, and where it begins. -/
  | string (text : String) (start : Nat)
  | other
deriving DecidableEq, Repr

/-- An attribute: what stands between `#[` and `]`. -/
structure Attribute where
  name : String
  text : String
  start : Nat
  arguments : Option Tree
  value : Option AttributeValue
deriving DecidableEq, Repr

/-- Something together with the outer attributes written before it. -/
structure Attributed (α : Type) where
  attributes : List Attribute
  item : α
deriving DecidableEq, Repr

/-- One entry of a list of items. -/
inductive Entry (α : Type)
  | comment (text : String)
  | innerAttribute (a : Attribute)
  | outerAttribute (a : Attribute)
  | item (x : α)
deriving DecidableEq, Repr

namespace Entry

variable {α : Type}

/-- Gives every item the outer attributes since the item before, after those that are pending. -/
def pairFrom (pending : List Attribute) : List (Entry α) → List (Attributed α)
  | [] => []
  | .comment _ :: es => pairFrom pending es
  | .innerAttribute _ :: es => pairFrom pending es
  | .outerAttribute a :: es => pairFrom (pending ++ [a]) es
  | .item x :: es => ⟨pending, x⟩ :: pairFrom [] es

/-- Gives every item the outer attributes since the item before it. -/
def pair (es : List (Entry α)) : List (Attributed α) := pairFrom [] es

/-- The outer attributes of a list, in order. -/
def outerAttributes (es : List (Entry α)) : List Attribute :=
  es.filterMap fun e => match e with
    | .outerAttribute a => some a
    | _ => none

/-- The items of a list, in order. -/
def items (es : List (Entry α)) : List α :=
  es.filterMap fun e => match e with
    | .item x => some x
    | _ => none

/-- The outer attributes after the last item, after those that are pending. -/
def trailingFrom (pending : List Attribute) : List (Entry α) → List Attribute
  | [] => pending
  | .comment _ :: es => trailingFrom pending es
  | .innerAttribute _ :: es => trailingFrom pending es
  | .outerAttribute a :: es => trailingFrom (pending ++ [a]) es
  | .item _ :: es => trailingFrom [] es

/-- The outer attributes after the last item. -/
def trailing (es : List (Entry α)) : List Attribute := trailingFrom [] es

end Entry

/-! ## Members -/

/-- A named field of a struct. -/
structure Field where
  name : String
  type : TypeExpr
  isPublic : Bool
deriving DecidableEq, Repr

/-- A named field in a syntax tree. -/
structure FieldNode where
  name : String
  type : TypeNode
  isPublic : Bool
deriving DecidableEq, Repr

/-- The field that a field in a tree is read as. -/
def FieldNode.field (f : FieldNode) : Field := ⟨f.name, f.type.expr, f.isPublic⟩

/-- What a struct consists of. -/
inductive StructBody
  | named (fields : List (Entry FieldNode))
  | positional
  | unit
deriving DecidableEq, Repr

/-- What a variant of an enum carries. -/
inductive Payload
  | unit
  | positional (types : List TypeNode)
  | named
deriving DecidableEq, Repr

/-- A variant of an enum. -/
structure Variant where
  name : String
  payload : Payload
deriving DecidableEq, Repr

/-! ## Imports -/

/-- What an import brings in. -/
inductive UseTree
  | path (text : String)
  | wildcard
  | rename (path name : String)
  | list (trees : List UseTree)
deriving Repr

namespace UseTree

mutual
/-- Decides whether two imports bring in the same. -/
def decEq : (a b : UseTree) → Decidable (a = b)
  | .path s, .path t =>
    match (inferInstance : Decidable (s = t)) with
    | isTrue h => isTrue (by rw [h])
    | isFalse h => isFalse fun e => h (by cases e; rfl)
  | .wildcard, .wildcard => isTrue rfl
  | .rename s m, .rename t n =>
    match (inferInstance : Decidable (s = t)), (inferInstance : Decidable (m = n)) with
    | isTrue h, isTrue g => isTrue (by rw [h, g])
    | isFalse h, _ => isFalse fun e => h (by cases e; rfl)
    | _, isFalse g => isFalse fun e => g (by cases e; rfl)
  | .list as, .list bs =>
    match decEqList as bs with
    | isTrue h => isTrue (by rw [h])
    | isFalse h => isFalse fun e => h (by cases e; rfl)
  | .path _, .wildcard | .path _, .rename _ _ | .path _, .list _ | .wildcard, .path _
  | .wildcard, .rename _ _ | .wildcard, .list _ | .rename _ _, .path _ | .rename _ _, .wildcard
  | .rename _ _, .list _ | .list _, .path _ | .list _, .wildcard
  | .list _, .rename _ _ => isFalse nofun
/-- Decides whether two lists of imports bring in the same. -/
def decEqList : (as bs : List UseTree) → Decidable (as = bs)
  | [], [] => isTrue rfl
  | a :: as, b :: bs =>
    match decEq a b, decEqList as bs with
    | isTrue h, isTrue g => isTrue (by rw [h, g])
    | isFalse h, _ => isFalse fun e => h (by cases e; rfl)
    | _, isFalse g => isFalse fun e => g (by cases e; rfl)
  | [], _ :: _ | _ :: _, [] => isFalse nofun
end

instance : DecidableEq UseTree := decEq

end UseTree

/-! ## Items -/

/-- A call of a macro: its name as written and its arguments. -/
structure MacroCall where
  name : String
  arguments : Tree
  text : String
  start : Nat
deriving DecidableEq, Repr

/-- The kinds of items. -/
inductive ItemKind
  | module
  | struct
  | enum
  | union
  | function
  | signature
  | implementation
  | trait
  | constant
  | static
  | typeAlias
  | associatedType
  | use
  | externCrate
  | foreignModule
  | macroDefinition
  | macroCall
  | letDeclaration
  | empty
  | expression
  | interpreter
deriving DecidableEq, Repr

/-- The name of a kind of items. -/
def ItemKind.name : ItemKind → String
  | .module => "mod_item"
  | .struct => "struct_item"
  | .enum => "enum_item"
  | .union => "union_item"
  | .function => "function_item"
  | .signature => "function_signature_item"
  | .implementation => "impl_item"
  | .trait => "trait_item"
  | .constant => "const_item"
  | .static => "static_item"
  | .typeAlias => "type_item"
  | .associatedType => "associated_type"
  | .use => "use_declaration"
  | .externCrate => "extern_crate_declaration"
  | .foreignModule => "foreign_mod_item"
  | .macroDefinition => "macro_definition"
  | .macroCall => "macro_invocation"
  | .letDeclaration => "let_declaration"
  | .empty => "empty_statement"
  | .expression => "expression_statement"
  | .interpreter => "shebang"

/-- What an item says. -/
inductive ItemBody
  /-- A module, which may have its items with it. -/
  | module (isInline : Bool)
  | struct (body : StructBody)
  | enum (variants : List (Entry Variant))
  | use (tree : UseTree)
  | macroCall (call : MacroCall)
  /-- A value as a statement; the macro call that it consists of, if it is one. -/
  | expression (call : Option MacroCall)
  | typeAlias (type : TypeNode)
  /-- An item of a kind that says nothing more to a schema. -/
  | plain (kind : ItemKind)
deriving DecidableEq, Repr

/-- The kind of an item. -/
def ItemBody.kind : ItemBody → ItemKind
  | .module _ => .module
  | .struct _ => .struct
  | .enum _ => .enum
  | .use _ => .use
  | .macroCall _ => .macroCall
  | .expression _ => .expression
  | .typeAlias _ => .typeAlias
  | .plain kind => kind

/-- An item.  It begins at its visibility. -/
structure Item where
  body : ItemBody
  name : Option String
  isPublic : Bool
  text : String
  start : Nat
deriving DecidableEq, Repr

namespace Item

/-- The kind of an item. -/
def kind (i : Item) : ItemKind := i.body.kind

/-- A statement that consists of a macro call stands for that call. -/
def unwrapped (i : Item) : Item :=
  match i.body with
  | .expression (some call) => ⟨.macroCall call, none, false, call.text, call.start⟩
  | _ => i

end Item

/-- The items of a list with their attributes, where a statement that consists of a macro call
stands for that call. -/
def itemsOf (es : List (Entry Item)) : List (Attributed Item) :=
  (Entry.pair es).map fun p => ⟨p.attributes, p.item.unwrapped⟩

end Rust
end NodeSchema
