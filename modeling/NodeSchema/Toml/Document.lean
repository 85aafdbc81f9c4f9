import NodeSchema.Toml.Reader

/-!
# TOML documents

Puts the statements of a document together.  A table may be opened once; a table that dotted keys
made cannot be opened by a header later; and what stands in an array or inline table cannot be
added to.
-/

set_option autoImplicit false

namespace NodeSchema
namespace Toml

/-- A document as far as it has been read. -/
structure Document where
  entries : Entries
  /-- The key of the table that entries go to. -/
  header : Key
  /-- The tables that were opened, or made by dotted keys under an earlier header. -/
  opened : List Key
  /-- The tables that dotted keys made under this header. -/
  pending : List Key
  /-- The keys of arrays and inline tables. -/
  frozen : List Key
deriving Repr

namespace Document

/-- The document without statements. -/
def empty : Document := ⟨[], [], [], [], []⟩

/-- The keys above a key in a table, from the nearest to the table on. -/
def keysAbove (header key : Key) : List Key :=
  ((List.range key.length).drop 1).map fun n => header ++ key.take n

/-- Adds a statement; nothing if it contradicts those before. -/
def add (d : Document) : Statement → Option Document
  | .entry key value =>
    let above := keysAbove d.header key
    if above.any d.opened.contains then none
    else if isWithin d.frozen (d.header ++ key.dropLast) then none
    else
      (enter true (d.header ++ key) value d.entries).map fun es =>
        { d with
          entries := es
          pending := above ++ d.pending
          frozen := if value.isNest then (d.header ++ key) :: d.frozen else d.frozen }
  | .table key =>
    let opened := d.pending ++ d.opened
    if opened.contains key || isWithin d.frozen key then none
    else
      (changeTable true some key d.entries).map fun es =>
        { d with entries := es, header := key, opened := key :: opened, pending := [] }
  | .arrayTable key =>
    let opened := d.pending ++ d.opened
    if isWithin d.frozen key then none
    else
      (appendTable key d.entries).map fun es =>
        { d with
          entries := es
          header := key
          opened := key :: opened.filter fun k => !key.isPrefixOf k
          pending := []
          frozen := d.frozen.filter fun k => !key.isPrefixOf k }

/-- Adds statements one after the other. -/
def addAll (d : Document) (ss : List Statement) : Option Document := ss.foldlM add d

end Document

/-- Reads a document as the entries of its root table. -/
def read (cs : List Char) : Except Refusal Entries :=
  let (ss, refusal) := statements cs
  match Document.empty.addAll ss with
  | none => .error .malformed
  | some d =>
    match refusal with
    | some e => .error e
    | none => .ok d.entries

/-- The reader that the program uses. -/
instance documentReader : DocumentReader := ⟨read⟩

end Toml
end NodeSchema
