import NodeSchema.Json.Value

/-!
# Schemas

A schema lists the nodes of a syntax tree, each with the types of its members, and the spellings
of the tokens.  Types refer to nodes, leaves and tokens by name.

The features of a node are those under any of which it exists.  A schema that is read from text may
list other values than names there (`FeatureName`); of equal ones the first is kept.
-/

set_option autoImplicit false

namespace NodeSchema

/-- The type of a member of a node. -/
inductive SchemaType
  /-- Another node. -/
  | node (name : String)
  /-- A primitive leaf. -/
  | std (name : String)
  /-- A leaf that the token layer supplies. -/
  | external (name : String)
  /-- A token, by its symbol. -/
  | token (symbol : String)
  /-- A pair of delimiters. -/
  | group (name : String)
  /-- Elements with a token between them. -/
  | punctuated (element : SchemaType) (separator : String)
  | option (inner : SchemaType)
  | box (inner : SchemaType)
  | vec (inner : SchemaType)
  | tuple (elements : List SchemaType)
deriving Repr

namespace SchemaType

mutual
/-- Two types are equal. -/
def eq : SchemaType → SchemaType → Bool
  | .node a, .node b => a = b
  | .std a, .std b => a = b
  | .external a, .external b => a = b
  | .token a, .token b => a = b
  | .group a, .group b => a = b
  | .punctuated a s, .punctuated b t => eq a b && s = t
  | .option a, .option b => eq a b
  | .box a, .box b => eq a b
  | .vec a, .vec b => eq a b
  | .tuple as, .tuple bs => eqAll as bs
  | _, _ => false
/-- Two lists of types are equal. -/
def eqAll : List SchemaType → List SchemaType → Bool
  | [], [] => true
  | a :: as, b :: bs => eq a b && eqAll as bs
  | _, _ => false
end

mutual
theorem eq_of_eq : ∀ (a b : SchemaType), eq a b = true → a = b
  | .node a, b, h | .std a, b, h | .external a, b, h | .token a, b, h | .group a, b, h => by
    cases b <;> simp_all [eq]
  | .punctuated a s, b, h => by
    cases b <;> simp [eq] at h
    next b t => rw [eq_of_eq a b h.1, h.2]
  | .option a, b, h => by cases b <;> simp [eq] at h; next b => rw [eq_of_eq a b h]
  | .box a, b, h => by cases b <;> simp [eq] at h; next b => rw [eq_of_eq a b h]
  | .vec a, b, h => by cases b <;> simp [eq] at h; next b => rw [eq_of_eq a b h]
  | .tuple as, b, h => by cases b <;> simp [eq] at h; next bs => rw [eq_of_eqAll as bs h]
theorem eq_of_eqAll : ∀ (as bs : List SchemaType), eqAll as bs = true → as = bs
  | [], bs, h => by cases bs <;> simp_all [eqAll]
  | a :: as, bs, h => by
    cases bs <;> simp [eqAll] at h
    next b bs => rw [eq_of_eq a b h.1, eq_of_eqAll as bs h.2]
end

mutual
theorem eq_self : ∀ a : SchemaType, eq a a = true
  | .node _ | .std _ | .external _ | .token _ | .group _ => by simp [eq]
  | .punctuated a _ => by simp [eq, eq_self a]
  | .option a => by simp [eq, eq_self a]
  | .box a => by simp [eq, eq_self a]
  | .vec a => by simp [eq, eq_self a]
  | .tuple as => by simp [eq, eqAll_self as]
theorem eqAll_self : ∀ as : List SchemaType, eqAll as as = true
  | [] => by simp [eqAll]
  | a :: as => by simp [eqAll, eq_self a, eqAll_self as]
end

instance : DecidableEq SchemaType := fun a b =>
  if h : eq a b = true then isTrue (eq_of_eq a b h)
  else isFalse fun e => h (e ▸ eq_self a)

end SchemaType

/-- What a node consists of. -/
inductive NodeData
  /-- The named fields of a struct of which all fields are public. -/
  | fields (fields : List (String × SchemaType))
  /-- The variants of an enum, with the types that each carries. -/
  | variants (variants : List (String × List SchemaType))
  /-- A struct that keeps its fields to itself. -/
  | opaque_
deriving DecidableEq, Repr

/-- What may be listed as a feature of a node. -/
inductive FeatureName
  | name (s : String)
  | null
  | bool (b : Bool)
  | int (n : Int)
  | float (x : Binary64)
deriving DecidableEq, Repr

namespace FeatureName

/-- The whole number that a truth value counts as. -/
def ofBool (b : Bool) : Int := if b then 1 else 0

/-- Two features are the same: names by their text, numbers and truth values by their size. -/
def same : FeatureName → FeatureName → Bool
  | .name s, .name t => s = t
  | .null, .null => true
  | .bool a, .bool b => a = b
  | .bool a, .int n | .int n, .bool a => ofBool a = n
  | .bool a, .float x | .float x, .bool a => x.eqInt (ofBool a)
  | .int m, .int n => m = n
  | .int n, .float x | .float x, .int n => x.eqInt n
  | .float x, .float y => x.eq y || (x = .nan && y = .nan)
  | _, _ => false

/-- The first of two features comes before the second; nothing if they have no order. -/
def before? : FeatureName → FeatureName → Option Bool
  | .name s, .name t => some (s < t)
  | .bool a, .bool b => some (ofBool a < ofBool b)
  | .bool a, .int n => some (ofBool a < n)
  | .int n, .bool a => some (n < ofBool a)
  | .bool a, .float x => some (x.intLt (ofBool a))
  | .float x, .bool a => some (x.ltInt (ofBool a))
  | .int m, .int n => some (m < n)
  | .int n, .float x => some (x.intLt n)
  | .float x, .int n => some (x.ltInt n)
  | .float x, .float y => some (x.lt y)
  | _, _ => none

/-- Features, each once: of equal ones the first. -/
def distinct (fs : List FeatureName) : List FeatureName :=
  fs.foldl (fun seen f => if seen.any (same f) then seen else seen ++ [f]) []

/-- Enters a feature among sorted features. -/
def insert? (f : FeatureName) : List FeatureName → Option (List FeatureName)
  | [] => some [f]
  | g :: gs => do
    let isBefore ← f.before? g
    if isBefore then some (f :: g :: gs) else (insert? f gs).map (g :: ·)

/-- Features in order; nothing if two of them have none. -/
def sort? (fs : List FeatureName) : Option (List FeatureName) :=
  fs.foldlM (fun sorted f => insert? f sorted) []

/-- Both list the same features, in any order. -/
def sameSet (fs gs : List FeatureName) : Bool :=
  fs.length = gs.length && fs.all fun f => gs.any (same f)

end FeatureName

/-- A node of a schema. -/
structure Node where
  ident : String
  features : List FeatureName
  data : NodeData
  exhaustive : Bool
deriving DecidableEq, Repr

/-- Two nodes say the same. -/
def Node.same (a b : Node) : Bool :=
  a.ident = b.ident && FeatureName.sameSet a.features b.features && a.data = b.data
    && a.exhaustive = b.exhaustive

/-- A schema: its version, its nodes in order, and the spellings of tokens by symbol. -/
structure Definitions where
  version : String
  nodes : List Node
  tokens : Table String
deriving DecidableEq, Repr

namespace Definitions

/-- The first node of a name. -/
def node? (d : Definitions) (ident : String) : Option Node := d.nodes.find? fun n => n.ident = ident

/-- Two tables have the same entries, in any order. -/
def sameTable (s t : Table String) : Bool :=
  s.size = t.size && s.entries.all fun e => t.find? e.1 = some e.2

/-- Two lists of nodes say the same. -/
def sameNodes : List Node → List Node → Bool
  | [], [] => true
  | a :: as, b :: bs => a.same b && sameNodes as bs
  | _, _ => false

/-- Two schemas say the same: tables and sets of features are compared in any order. -/
def same (d e : Definitions) : Bool :=
  d.version = e.version && sameNodes d.nodes e.nodes && sameTable d.tokens e.tokens

end Definitions
end NodeSchema
