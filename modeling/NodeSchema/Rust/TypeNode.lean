import NodeSchema.Rust.Tree
import NodeSchema.Rust.TypeExpr
import NodeSchema.Text.Blank
import NodeSchema.Text.PathName

/-!
# Types in a syntax tree

A type as it stands in the syntax tree of a source text (`TypeNode`), and the type that it is read
as (`TypeNode.expr`).  The segments of a path are cut from its text: blanks are dropped and the rest
is cut at every `::`, so that whatever else stands in a path stays in its segments.
-/

set_option autoImplicit false

namespace NodeSchema
namespace Rust

/-- The segments of a path, taken from its text. -/
def segmentsOf (text : String) : List String :=
  ((Text.splitColons (Text.removeBlanks text.toList)).filter fun p => !p.isEmpty).map String.ofList

/-- A type in a syntax tree, apart from where it stands. -/
inductive TypeNode
  /-- A path as it stands, up to the generic arguments at its end. -/
  | path (text : String) (arguments : List TypeNode)
  | tuple (elements : List TypeNode)
  /-- A macro in type position: its name as it stands, and its tokens. -/
  | macroCall (name : String) (tokens : Tree)
  /-- A comment between the arguments or the elements of a type. -/
  | comment (text : String)
  /-- What may stand for a generic argument and is no type: a lifetime, a binding, a block, a
  literal, a bound. -/
  | argument (text : String)
  /-- Any other type. -/
  | other (text : String)
deriving Repr

namespace TypeNode

mutual
/-- Decides whether two types are the same in a tree. -/
def decEq : (a b : TypeNode) → Decidable (a = b)
  | .path s as, .path t bs =>
    match (inferInstance : Decidable (s = t)), decEqList as bs with
    | isTrue h, isTrue g => isTrue (by rw [h, g])
    | isFalse h, _ => isFalse fun e => h (by cases e; rfl)
    | _, isFalse g => isFalse fun e => g (by cases e; rfl)
  | .tuple as, .tuple bs =>
    match decEqList as bs with
    | isTrue h => isTrue (by rw [h])
    | isFalse h => isFalse fun e => h (by cases e; rfl)
  | .macroCall s t, .macroCall s' t' =>
    match (inferInstance : Decidable (s = s')), (inferInstance : Decidable (t = t')) with
    | isTrue h, isTrue g => isTrue (by rw [h, g])
    | isFalse h, _ => isFalse fun e => h (by cases e; rfl)
    | _, isFalse g => isFalse fun e => g (by cases e; rfl)
  | .comment s, .comment t =>
    match (inferInstance : Decidable (s = t)) with
    | isTrue h => isTrue (by rw [h])
    | isFalse h => isFalse fun e => h (by cases e; rfl)
  | .argument s, .argument t =>
    match (inferInstance : Decidable (s = t)) with
    | isTrue h => isTrue (by rw [h])
    | isFalse h => isFalse fun e => h (by cases e; rfl)
  | .other s, .other t =>
    match (inferInstance : Decidable (s = t)) with
    | isTrue h => isTrue (by rw [h])
    | isFalse h => isFalse fun e => h (by cases e; rfl)
  | .path _ _, .tuple _ | .path _ _, .macroCall _ _ | .path _ _, .comment _
  | .path _ _, .argument _ | .path _ _, .other _ | .tuple _, .path _ _ | .tuple _, .macroCall _ _
  | .tuple _, .comment _ | .tuple _, .argument _ | .tuple _, .other _ | .macroCall _ _, .path _ _
  | .macroCall _ _, .tuple _ | .macroCall _ _, .comment _ | .macroCall _ _, .argument _
  | .macroCall _ _, .other _ | .comment _, .path _ _ | .comment _, .tuple _
  | .comment _, .macroCall _ _ | .comment _, .argument _ | .comment _, .other _
  | .argument _, .path _ _ | .argument _, .tuple _ | .argument _, .macroCall _ _
  | .argument _, .comment _ | .argument _, .other _ | .other _, .path _ _ | .other _, .tuple _
  | .other _, .macroCall _ _ | .other _, .comment _ | .other _, .argument _ => isFalse nofun
/-- Decides whether two lists of types are the same in a tree. -/
def decEqList : (as bs : List TypeNode) → Decidable (as = bs)
  | [], [] => isTrue rfl
  | a :: as, b :: bs =>
    match decEq a b, decEqList as bs with
    | isTrue h, isTrue g => isTrue (by rw [h, g])
    | isFalse h, _ => isFalse fun e => h (by cases e; rfl)
    | _, isFalse g => isFalse fun e => g (by cases e; rfl)
  | [], _ :: _ | _ :: _, [] => isFalse nofun
end

instance : DecidableEq TypeNode := decEq

mutual
/-- The type that a type in a tree is read as. -/
def expr : TypeNode → TypeExpr
  | .path text arguments => .path (segmentsOf text) (argumentExprs arguments)
  | .tuple elements => .tuple (exprs elements)
  | .macroCall name tokens => .macroCall (TypeExpr.lastSegment (segmentsOf name)) tokens.renderBody
  | .comment text | .argument text | .other text => .other text
/-- The types of a list, without comments. -/
def exprs : List TypeNode → List TypeExpr
  | [] => []
  | .comment _ :: ns => exprs ns
  | n :: ns => expr n :: exprs ns
/-- The generic arguments of a list, without comments. -/
def argumentExprs : List TypeNode → List TypeExpr
  | [] => []
  | .comment _ :: ns => argumentExprs ns
  | .argument text :: ns => .argument text :: argumentExprs ns
  | n :: ns => expr n :: argumentExprs ns
end

end TypeNode
end Rust
end NodeSchema
