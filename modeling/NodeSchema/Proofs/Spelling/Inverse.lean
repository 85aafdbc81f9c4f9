import NodeSchema.Proofs.Order
import NodeSchema.Proofs.Result
import NodeSchema.Proofs.Table
import NodeSchema.Spelling.Table

/-!
# Turning a table of spellings around

`Spelling.invert` enters the symbols of a table one after the other and refuses a second spelling
of one symbol.  So what it gives, if it gives anything, loses no entry:

* `find?_invert` — a symbol has a spelling iff the table has that spelling with that symbol;
* `isMap_invert` — and it has no other.
-/

set_option autoImplicit false

namespace NodeSchema
namespace Spelling

/-- The invariant of inverting: what is found is what was there before and what was entered. -/
theorem find?_invertFrom {inverted t : Table String} {es : List (String × String)}
    (h : invertFrom inverted es = .ok t) (symbol spelling : String) :
    t.find? symbol = some spelling ↔
      inverted.find? symbol = some spelling ∨ (spelling, symbol) ∈ es := by
  induction es generalizing inverted with
  | nil =>
    cases h
    simp
  | cons e rest ih =>
    obtain ⟨spelling', symbol'⟩ := e
    rw [invertFrom] at h
    rw [List.mem_cons, Prod.mk.injEq]
    split at h
    · next other hother =>
      split at h
      · next heq =>
        subst heq
        rw [ih h]
        constructor
        · rintro (hfind | hmem)
          · exact .inl hfind
          · exact .inr (.inr hmem)
        · rintro (hfind | ⟨rfl, rfl⟩ | hmem)
          · exact .inl hfind
          · exact .inl hother
          · exact .inr hmem
      · cases h
    · next hnone =>
      rw [ih h, Table.find?_insert]
      by_cases hsymbol : symbol' = symbol
      · subst hsymbol
        rw [if_pos rfl, hnone, Option.some.injEq]
        constructor
        · rintro (rfl | hmem)
          · exact .inr (.inl ⟨rfl, rfl⟩)
          · exact .inr (.inr hmem)
        · rintro (hfind | ⟨rfl, -⟩ | hmem)
          · cases hfind
          · exact .inl rfl
          · exact .inr hmem
      · rw [if_neg hsymbol]
        constructor
        · rintro (hfind | hmem)
          · exact .inl hfind
          · exact .inr (.inr hmem)
        · rintro (hfind | ⟨-, rfl⟩ | hmem)
          · exact .inl hfind
          · exact absurd rfl hsymbol
          · exact .inr hmem

theorem isMap_invertFrom {inverted t : Table String} {es : List (String × String)}
    (hinverted : inverted.IsMap) (h : invertFrom inverted es = .ok t) : t.IsMap := by
  induction es generalizing inverted with
  | nil =>
    cases h
    exact hinverted
  | cons e rest ih =>
    obtain ⟨spelling, symbol⟩ := e
    rw [invertFrom] at h
    split at h
    · split at h
      · exact ih hinverted h
      · cases h
    · exact ih (hinverted.insert symbol spelling) h

/-- Sorting makes a map of a map. -/
theorem isMap_sortEntries {t : Table String} (h : t.IsMap) :
    (⟨sortEntries t.entries⟩ : Table String).IsMap :=
  nodup_names_sortEntries h

theorem isMap_invert {table t : Table String} (h : invert table = .ok t) : t.IsMap := by
  obtain ⟨u, hu, rfl⟩ := map_eq_ok.mp h
  exact isMap_sortEntries (isMap_invertFrom Table.isMap_empty hu)

/-- **A table that can be turned around has every entry the other way round, and no other.** -/
theorem find?_invert {table t : Table String} (h : invert table = .ok t)
    (symbol spelling : String) :
    t.find? symbol = some spelling ↔ (spelling, symbol) ∈ table.entries := by
  obtain ⟨u, hu, rfl⟩ := map_eq_ok.mp h
  have hmap : u.IsMap := isMap_invertFrom Table.isMap_empty hu
  have hsort := (Table.perm_iff_find?_eq (isMap_sortEntries hmap) hmap).mp
    (perm_sortEntries u.entries) symbol
  rw [hsort, find?_invertFrom hu]
  refine or_iff_right fun hempty ↦ ?_
  cases hempty

end Spelling
end NodeSchema
