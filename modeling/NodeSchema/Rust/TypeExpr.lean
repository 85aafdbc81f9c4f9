/-!
# Types as written

The types that a declaration may mention, as far as a schema tells them apart: paths with generic
arguments, tuples and macros in type position.  All other forms are kept as their text.
`TypeExpr.describe` writes a type the way messages show it.
-/

set_option autoImplicit false

namespace NodeSchema
namespace Rust

/-- A type as written. -/
inductive TypeExpr
  /-- A path; the arguments are those of its last segment. -/
  | path (segments : List String) (arguments : List TypeExpr)
  | tuple (elements : List TypeExpr)
  /-- A macro in type position, with its tokens run together. -/
  | macroCall (name tokens : String)
  /-- A generic argument that is no type: a lifetime, a binding, a block, a literal, a bound. -/
  | argument (text : String)
  /-- Any other type. -/
  | other (text : String)
deriving Repr

namespace TypeExpr

mutual
/-- Decides whether two types are written alike. -/
def decEq : (a b : TypeExpr) → Decidable (a = b)
  | .path s as, .path t bs =>
    match (inferInstance : Decidable (s = t)), decEqList as bs with
    | isTrue h, isTrue g => isTrue (by rw [h, g])
    | isFalse h, _ => isFalse fun e => h (by cases e; rfl)
    | _, isFalse g => isFalse fun e => g (by cases e; rfl)
  | .tuple as, .tuple bs =>
    match decEqList as bs with
    | isTrue h => isTrue (by rw [h])
    | isFalse h => isFalse fun e => h (by cases e; rfl)
  | .macroCall m s, .macroCall n t =>
    match (inferInstance : Decidable (m = n)), (inferInstance : Decidable (s = t)) with
    | isTrue h, isTrue g => isTrue (by rw [h, g])
    | isFalse h, _ => isFalse fun e => h (by cases e; rfl)
    | _, isFalse g => isFalse fun e => g (by cases e; rfl)
  | .argument s, .argument t =>
    match (inferInstance : Decidable (s = t)) with
    | isTrue h => isTrue (by rw [h])
    | isFalse h => isFalse fun e => h (by cases e; rfl)
  | .other s, .other t =>
    match (inferInstance : Decidable (s = t)) with
    | isTrue h => isTrue (by rw [h])
    | isFalse h => isFalse fun e => h (by cases e; rfl)
  | .path _ _, .tuple _ | .path _ _, .macroCall _ _ | .path _ _, .argument _
  | .path _ _, .other _ | .tuple _, .path _ _ | .tuple _, .macroCall _ _
  | .tuple _, .argument _ | .tuple _, .other _ | .macroCall _ _, .path _ _
  | .macroCall _ _, .tuple _ | .macroCall _ _, .argument _ | .macroCall _ _, .other _
  | .argument _, .path _ _ | .argument _, .tuple _ | .argument _, .macroCall _ _
  | .argument _, .other _ | .other _, .path _ _ | .other _, .tuple _
  | .other _, .macroCall _ _ | .other _, .argument _ => isFalse nofun
/-- Decides whether two lists of types are written alike. -/
def decEqList : (as bs : List TypeExpr) → Decidable (as = bs)
  | [], [] => isTrue rfl
  | a :: as, b :: bs =>
    match decEq a b, decEqList as bs with
    | isTrue h, isTrue g => isTrue (by rw [h, g])
    | isFalse h, _ => isFalse fun e => h (by cases e; rfl)
    | _, isFalse g => isFalse fun e => g (by cases e; rfl)
  | [], _ :: _ | _ :: _, [] => isFalse nofun
end

instance : DecidableEq TypeExpr := decEq

/-- The last segment of a path. -/
def lastSegment (segments : List String) : String := segments.getLast?.getD ""

/-- Writes a generic-argument list or nothing. -/
def bracketed (shown : List String) : String :=
  if shown.isEmpty then "" else "<" ++ ", ".intercalate shown ++ ">"

mutual
/-- The type as messages show it. -/
def describe : TypeExpr → String
  | .path segments arguments => "::".intercalate segments ++ bracketed (describeAll arguments)
  | .tuple elements => "(" ++ ", ".intercalate (describeAll elements) ++ ")"
  | .macroCall name tokens => name ++ "![" ++ tokens ++ "]"
  | .argument text => text
  | .other text => text
/-- The types as messages show them, one by one. -/
def describeAll : List TypeExpr → List String
  | [] => []
  | t :: ts => describe t :: describeAll ts
end

end TypeExpr
end Rust
end NodeSchema
