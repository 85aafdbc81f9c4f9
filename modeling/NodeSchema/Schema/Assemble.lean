import NodeSchema.Schema.Introspect
import NodeSchema.Spelling.Table

/-!
# Assembling a schema

A schema is made from the declarations and aliases that a crate was found to hold, and from the
table of spellings.  Its nodes stand in the order of their names, and its tokens in the order of
their symbols.
-/

set_option autoImplicit false

namespace NodeSchema

/-- What a crate was found to hold: declarations by name, and aliases. -/
structure Lookup where
  declarations : Table Declaration
  aliases : Table String
deriving DecidableEq, Repr

namespace Lookup

/-- Nothing found yet. -/
def empty : Lookup := ⟨.empty, .empty⟩

/-- What the types of a crate are looked up in. -/
def scope (l : Lookup) (tokens : Table String) (leaves : LeafTables) : Scope :=
  ⟨l.declarations.names, l.aliases, tokens, leaves⟩

/-- The nodes of a crate, in the order of their names. -/
def nodes (l : Lookup) (tokens : Table String) (leaves : LeafTables) :
    Except Failure (List Node) :=
  (Spelling.sortEntries l.declarations.entries).mapM fun e => (l.scope tokens leaves).node e.2

/-- The schema of a crate. -/
def definitions (l : Lookup) (tokens : Table String) (leaves : LeafTables) (version : String) :
    Except Failure Definitions := do
  let nodes ← l.nodes tokens leaves
  let spellings ← Spelling.invert tokens
  .ok ⟨version, nodes, spellings⟩

/-- Assembles the schema of a crate. -/
def assemble (l : Lookup) (tokens : Table String) (leaves : LeafTables) (version : String) :
    Logged Definitions := do
  let nodes ← Logged.ofExcept (l.nodes tokens leaves)
  Logged.tell (.assembled version nodes.length)
  let spellings ← Logged.ofExcept (Spelling.invert tokens)
  pure ⟨version, nodes, spellings⟩

end Lookup
end NodeSchema
