import NodeSchema.Rust.Item
import NodeSchema.Table

/-!
# Renamed re-exports

A crate may export a node under another name (`pub use path::Name as Alias`).  The aliases of such
an import are the renames in it, however deep in lists they stand; a rename to `_` introduces no
name.

`Alias.resolve` follows aliases from a name to a known node.  It ends because a name that comes
up a second time is refused as a cycle.
-/

set_option autoImplicit false

namespace NodeSchema
namespace Alias

open Rust

/-! ## Collecting -/

/-- The last segment of a path, taken from its text, without blanks at its ends. -/
def originalName (path : String) : String :=
  String.ofList (Text.stripBlanks (Text.lastPart path.toList))

mutual
/-- The renames of an import, in order. -/
def renames : UseTree → List (String × String)
  | .path _ => []
  | .wildcard => []
  | .rename path name => if name = "_" then [] else [(name, originalName path)]
  | .list trees => renamesAll trees
/-- The renames of several imports, in order. -/
def renamesAll : List UseTree → List (String × String)
  | [] => []
  | t :: ts => renames t ++ renamesAll ts
end

/-- The aliases of an import: of two renames to one name the later holds. -/
def ofUse (tree : UseTree) : Table String := .ofPairs (renames tree)

/-! ## Resolving -/

/-- Follows aliases from `current`; `seen` holds the names passed so far, and `start` is the name
that messages tell. -/
def resolveFrom (aliases : Table String) (known : String → Bool) (start : String) :
    Nat → List String → String → Except Failure String
  | 0, _, _ => .error (.aliasCycle start)
  | fuel + 1, seen, current =>
    if known current then .ok current
    else
      match aliases.find? current with
      | none => .error (.unknownType start)
      | some target =>
        if seen.contains target then .error (.aliasCycle start)
        else resolveFrom aliases known start fuel (target :: seen) target

/-- The known name that a name stands for.  Every step but the last passes another alias, so one
more step than there are aliases is enough. -/
def resolve (aliases : Table String) (known : String → Bool) (name : String) :
    Except Failure String :=
  resolveFrom aliases known name (aliases.size + 1) [name] name

end Alias
end NodeSchema
