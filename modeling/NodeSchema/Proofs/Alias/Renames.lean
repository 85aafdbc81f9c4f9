import NodeSchema.Proofs.Alias
import NodeSchema.Proofs.Rust.PathText

/-!
# The renames of an import

An import renames what the rename clauses in it say, however deep in lists they stand
(`HasRenames`); it has no other parts that introduce a name.  The aliases of the import are
the map of these renames (`isMapOf_ofUse`): of two renames to one name the later holds, and names
come in the order in which they came first.
-/

set_option autoImplicit false

namespace NodeSchema
namespace Alias

open Rust

/-- A rename `path as name`: the last name of the path, and the new name. -/
structure RenameClause where
  original : String
  name : String

namespace RenameClause

/-- The renames that introduce a name. -/
def introducing (rs : List RenameClause) : List RenameClause := rs.filter fun r ↦ r.name ≠ "_"

/-- Renames as pairs of the new name and the original one. -/
def pairs (rs : List RenameClause) : List (String × String) :=
  rs.map fun r ↦ (r.name, r.original)

end RenameClause

mutual
/-- The import renames these names, in order, and no comment stands in a path that is renamed. -/
inductive HasRenames : UseTree → List RenameClause → Prop
  | path (text : String) : HasRenames (.path text) []
  | wildcard : HasRenames .wildcard []
  | rename {names : List String} {original text : String} (name : String)
    (h : IsPathText (names ++ [original]) text.toList) :
    HasRenames (.rename text name) [⟨original, name⟩]
  | list {trees : List UseTree} {rs : List RenameClause} (h : HaveRenames trees rs) :
    HasRenames (.list trees) rs
/-- The imports rename these names, one import after the other. -/
inductive HaveRenames : List UseTree → List RenameClause → Prop
  | nil : HaveRenames [] []
  | cons {tree : UseTree} {trees : List UseTree} {rs qs : List RenameClause}
    (h : HasRenames tree rs) (later : HaveRenames trees qs) :
    HaveRenames (tree :: trees) (rs ++ qs)
end

theorem RenameClause.pairs_introducing_append (rs qs : List RenameClause) :
    pairs (introducing (rs ++ qs)) = pairs (introducing rs) ++ pairs (introducing qs) := by
  rw [pairs, introducing, List.filter_append, List.map_append]
  rfl

theorem renames_rename {names : List String} {original text : String} (name : String)
    (h : IsPathText (names ++ [original]) text.toList) :
    renames (.rename text name) = RenameClause.pairs (RenameClause.introducing
      [⟨original, name⟩]) := by
  have horiginal := originalName_of_isPathText h
  rw [List.getLast?_concat] at horiginal
  rw [renames, ← Option.some.inj horiginal, RenameClause.introducing]
  by_cases hname : name = "_"
  · rw [if_pos hname, List.filter_cons_of_neg (by simpa using hname)]
    rfl
  · rw [if_neg hname, List.filter_cons_of_pos (by simpa using hname)]
    rfl

mutual
/-- **The renames of an import** are those of its clauses that introduce a name. -/
theorem renames_of_hasRenames {tree : UseTree} {rs : List RenameClause} (h : HasRenames tree rs) :
    renames tree = RenameClause.pairs (RenameClause.introducing rs) := by
  cases h with
  | path | wildcard => rfl
  | rename name h => exact renames_rename name h
  | list h => exact renamesAll_of_haveRenames h
theorem renamesAll_of_haveRenames {trees : List UseTree} {rs : List RenameClause}
    (h : HaveRenames trees rs) :
    renamesAll trees = RenameClause.pairs (RenameClause.introducing rs) := by
  cases h with
  | nil => rfl
  | cons h later =>
    rw [renamesAll, renames_of_hasRenames h, renamesAll_of_haveRenames later,
      RenameClause.pairs_introducing_append]
end

/-- The table maps the new names of renames to the original ones: of two renames to one name the
later holds, and names come in the order in which they came first. -/
structure IsMapOf (t : Table String) (rs : List RenameClause) : Prop where
  names : t.names = (rs.map RenameClause.name).eraseDups
  find? (name : String) :
    t.find? name = (rs.filter fun r ↦ r.name = name).getLast?.map RenameClause.original

theorem isMapOf_ofPairs (rs : List RenameClause) :
    IsMapOf (.ofPairs (RenameClause.pairs rs)) rs where
  names := by
    rw [Table.names_ofPairs, RenameClause.pairs, List.map_map]
    rfl
  find? name := by
    rw [Table.find?_ofPairs, Table.valuesOf, RenameClause.pairs, List.filter_map, List.map_map,
      List.getLast?_map]
    rfl

/-- **The aliases of an import are the map of its renames** that introduce a name. -/
theorem isMapOf_ofUse {tree : UseTree} {rs : List RenameClause} (h : HasRenames tree rs) :
    IsMapOf (ofUse tree) (RenameClause.introducing rs) := by
  rw [ofUse, renames_of_hasRenames h]
  exact isMapOf_ofPairs _

end Alias
end NodeSchema
