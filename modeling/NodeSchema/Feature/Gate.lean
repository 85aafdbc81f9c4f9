import NodeSchema.Feature.Cfg

/-!
# Gates inherited through the module tree

The gates on a module are kept as they are written and read only when a declaration below the
module is recorded.  A module that holds no declarations may therefore carry forms of `cfg` that
no declaration can.
-/

set_option autoImplicit false

namespace NodeSchema

open Rust (Attribute)

/-- A gate: a predicate, or `cfg` attributes still to be read. -/
inductive Gate
  | known (features : Features)
  | written (attributes : List Attribute)
deriving Repr

namespace Gate

/-- The predicate of a gate. -/
def read : Gate → Except Failure Features
  | .known f => .ok f
  | .written as => Cfg.ofAttributes as

/-- The gate that a predicate gives, if it is not unconditional. -/
def ofFeatures (f : Features) : List Gate := if f.isAlways then [] else [.known f]

/-- Adds the `cfg` attributes among attributes to gates. -/
def add (gates : List Gate) (attributes : List Attribute) : List Gate :=
  match Cfg.select attributes with
  | [] => gates
  | cfgs => gates ++ [.written cfgs]

/-- Reads and merges gates from the first to the last. -/
def resolveFrom (current : Features) : List Gate → Except Failure Features
  | [] => .ok current
  | g :: gs => do
    let f ← g.read
    let merged ← current.merge? f
    resolveFrom merged gs

/-- The predicate of all gates. -/
def resolve (gates : List Gate) : Except Failure Features := resolveFrom .always gates

end Gate
end NodeSchema
