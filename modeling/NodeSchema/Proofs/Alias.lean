import NodeSchema.Alias
import NodeSchema.Proofs.Table

/-!
# What aliases lead to

* `known_of_resolve` — following aliases ends at a known name, if it ends without a complaint;
* `find?_insertAll_ofUse` — entering the aliases of an import is entering its renames.
-/

set_option autoImplicit false

namespace NodeSchema
namespace Alias

variable {aliases : Table String} {known : String → Bool}

theorem known_of_resolveFrom {start current ident : String} {seen : List String} {fuel : Nat}
    (h : resolveFrom aliases known start fuel seen current = .ok ident) : known ident = true := by
  induction fuel generalizing seen current with
  | zero => cases h
  | succ fuel ih =>
    rw [resolveFrom] at h
    split at h
    · next hknown =>
      cases h
      exact hknown
    · split at h
      · cases h
      · split at h
        · cases h
        · exact ih h

/-- **A name that is resolved stands for a known one**, however long the chain of aliases is. -/
theorem known_of_resolve {name ident : String} (h : resolve aliases known name = .ok ident) :
    known ident = true :=
  known_of_resolveFrom h

/-- **Entering the aliases of an import is entering its renames**, of which the later hold. -/
theorem find?_insertAll_ofUse (t : Table String) (tree : Rust.UseTree) (name : String) :
    (t.insertAll (ofUse tree).entries).find? name =
      (Table.valuesOf name (renames tree)).getLast?.or (t.find? name) := by
  rw [ofUse, Table.find?_insertAll_entries (Table.isMap_ofPairs _), Table.find?_ofPairs]

end Alias
end NodeSchema
