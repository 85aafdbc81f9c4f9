import Mathlib.Data.String.Basic
import NodeSchema.Proofs.Table
import NodeSchema.Spelling.Table

/-!
# Entries in the order of their names

`Spelling.sortEntries` puts entries in the order of their names by entering one after the other.
Three facts carry everything that is said about it elsewhere:

* `perm_sortEntries` — it rearranges the entries;
* `pairwise_lt_sortEntries` — entries with different names come out in strictly increasing order;
* `sortEntries_congr` — so the result does not depend on the order in which they came.
-/

set_option autoImplicit false

namespace NodeSchema
namespace Spelling

variable {α : Type}

theorem perm_insertSorted (e : String × α) (es : List (String × α)) :
    (insertSorted e es).Perm (e :: es) := by
  induction es with
  | nil => exact .refl _
  | cons f fs ih =>
    rw [insertSorted]
    split
    · exact .refl _
    · exact (ih.cons f).trans (.swap e f fs)

theorem pairwise_insertSorted {e : String × α} {es : List (String × α)}
    (h : es.Pairwise fun a b ↦ a.1 ≤ b.1) :
    (insertSorted e es).Pairwise fun a b ↦ a.1 ≤ b.1 := by
  induction es with
  | nil => exact List.pairwise_singleton _ e
  | cons f fs ih =>
    obtain ⟨hf, hfs⟩ := List.pairwise_cons.mp h
    rw [insertSorted]
    split
    · next hlt =>
      refine List.pairwise_cons.mpr ⟨fun a ha ↦ ?_, h⟩
      rcases List.mem_cons.mp ha with rfl | ha
      · exact hlt.le
      · exact hlt.le.trans (hf a ha)
    · next hnlt =>
      refine List.pairwise_cons.mpr ⟨fun a ha ↦ ?_, ih hfs⟩
      rcases List.mem_cons.mp ((perm_insertSorted e fs).subset ha) with rfl | ha
      · exact not_lt.mp hnlt
      · exact hf a ha

/-- Entering the rest of the entries among those that are sorted already. -/
theorem foldl_insertSorted (es sorted : List (String × α))
    (h : sorted.Pairwise fun a b ↦ a.1 ≤ b.1) :
    (es.foldl (fun sorted e ↦ insertSorted e sorted) sorted).Perm (sorted ++ es) ∧
      (es.foldl (fun sorted e ↦ insertSorted e sorted) sorted).Pairwise
        fun a b ↦ a.1 ≤ b.1 := by
  induction es generalizing sorted with
  | nil => exact ⟨by simp, h⟩
  | cons e es ih =>
    obtain ⟨hperm, hsorted⟩ := ih (insertSorted e sorted) (pairwise_insertSorted h)
    refine ⟨hperm.trans ?_, hsorted⟩
    exact ((perm_insertSorted e sorted).append_right es).trans List.perm_middle.symm

theorem perm_sortEntries (es : List (String × α)) : (sortEntries es).Perm es :=
  (foldl_insertSorted es [] .nil).1

theorem pairwise_sortEntries (es : List (String × α)) :
    (sortEntries es).Pairwise fun a b ↦ a.1 ≤ b.1 :=
  (foldl_insertSorted es [] .nil).2

theorem nodup_names_sortEntries {es : List (String × α)} (h : (es.map Prod.fst).Nodup) :
    ((sortEntries es).map Prod.fst).Nodup :=
  ((perm_sortEntries es).map Prod.fst).nodup_iff.mpr h

/-- **Entries with different names come out in strictly increasing order.** -/
theorem pairwise_lt_sortEntries {es : List (String × α)} (h : (es.map Prod.fst).Nodup) :
    (sortEntries es).Pairwise fun a b ↦ a.1 < b.1 := by
  have hne : (sortEntries es).Pairwise fun a b ↦ a.1 ≠ b.1 :=
    List.pairwise_map.mp (nodup_names_sortEntries h)
  exact ((pairwise_sortEntries es).and hne).imp fun hab ↦ lt_of_le_of_ne hab.1 hab.2

/-- **The order in which entries come does not matter**, if their names are different. -/
theorem sortEntries_congr {es fs : List (String × α)} (h : (es.map Prod.fst).Nodup)
    (hperm : es.Perm fs) : sortEntries es = sortEntries fs := by
  have hfs : (fs.map Prod.fst).Nodup := (hperm.map Prod.fst).nodup_iff.mp h
  refine List.Perm.eq_of_pairwise ?_ (pairwise_lt_sortEntries h) (pairwise_lt_sortEntries hfs)
    ((perm_sortEntries es).trans (hperm.trans (perm_sortEntries fs).symm))
  intro a b _ _ hab hba
  exact absurd (hab.trans hba) (lt_irrefl a.1)

/-- Entries with different names are told apart by what they are sorted to. -/
theorem sortEntries_eq_iff {es fs : List (String × α)} (h : (es.map Prod.fst).Nodup) :
    sortEntries es = sortEntries fs ↔ es.Perm fs := by
  refine ⟨fun heq ↦ ?_, sortEntries_congr h⟩
  exact (perm_sortEntries es).symm.trans (heq ▸ perm_sortEntries fs)

end Spelling
end NodeSchema
