import Mathlib.Data.List.Perm.Basic
import NodeSchema.Schema.Basic

/-!
# The features that a schema may list

A schema that was read from text may list other values than names as features.  This file says what
holds of all of them.

* **Each once.**  `distinct` keeps the first of features that are the same (`pairwise_distinct`),
  and nothing changes if no two of them are (`distinct_eq`).
* **In order.**  Features are put in order iff any two of them have one
  (`isSome_sort?_iff`), that is, if all are names or all are numbers; they stay the same features
  (`perm_of_sort?`).
-/

set_option autoImplicit false

namespace NodeSchema
namespace FeatureName

/-! ## Each once -/

/-- A feature is the same as itself. -/
theorem same_self (f : FeatureName) : same f f = true := by
  match f with
  | .name _ | .null | .bool _ | .int _ => simp [same]
  | .float x => cases x <;> simp [same, Binary64.eq]

theorem same_comm (f g : FeatureName) : same f g = same g f := by
  have hfloat (x y : Binary64) : x.eq y = y.eq x := by
    cases x <;> cases y <;> simp only [Binary64.eq, eq_comm (a := (_ : Bool)), Bool.and_comm,
      eq_comm (a := (_ : Nat)), eq_comm (a := (_ : Int))]
  cases f <;> cases g <;> simp only [same, eq_comm (a := (_ : String)), eq_comm (a := (_ : Bool)),
    eq_comm (a := (_ : Int)), hfloat, Bool.and_comm]

/-- Features of which no two are the same are kept. -/
theorem distinct_eq {fs : List FeatureName} (h : fs.Pairwise fun f g ↦ same f g = false) :
    distinct fs = fs := by
  have hfold (seen : List FeatureName) (hseen : (seen ++ fs).Pairwise fun f g ↦ same f g = false) :
      fs.foldl (fun seen f ↦ if seen.any (same f) then seen else seen ++ [f]) seen =
        seen ++ fs := by
    induction fs generalizing seen with
    | nil => exact (List.append_nil seen).symm
    | cons f fs ih =>
      have hf : seen.any (same f) = false := by
        rw [List.any_eq_false]
        intro g hg
        rw [same_comm, (List.pairwise_append.mp hseen).2.2 g hg f (List.mem_cons_self ..)]
        exact Bool.false_ne_true
      rw [List.foldl_cons, hf, if_neg Bool.false_ne_true,
        ih (List.pairwise_cons.mp h).2 (seen ++ [f]) (by rwa [List.append_assoc]),
        List.append_assoc]
      rfl
  exact hfold [] h

/-- No two features that are kept are the same. -/
theorem pairwise_distinct (fs : List FeatureName) :
    (distinct fs).Pairwise fun f g ↦ same f g = false := by
  have hfold (seen : List FeatureName) (hseen : seen.Pairwise fun f g ↦ same f g = false) :
      (fs.foldl (fun seen f ↦ if seen.any (same f) then seen else seen ++ [f]) seen).Pairwise
        fun f g ↦ same f g = false := by
    induction fs generalizing seen with
    | nil => exact hseen
    | cons f fs ih =>
      rw [List.foldl_cons]
      split
      · exact ih seen hseen
      · next hf =>
        refine ih _ (List.pairwise_append.mpr ⟨hseen, List.pairwise_singleton _ _, ?_⟩)
        intro g hg f' hf'
        rw [List.mem_singleton.mp hf', same_comm]
        exact Bool.eq_false_iff.mpr fun hsame ↦ hf (List.any_eq_true.mpr ⟨g, hg, hsame⟩)
  exact hfold [] List.Pairwise.nil

/-- Only listed features are kept. -/
theorem mem_of_mem_distinct {fs : List FeatureName} :
    ∀ f ∈ distinct fs, f ∈ fs := by
  have hfold (seen : List FeatureName) :
      ∀ g ∈ fs.foldl (fun seen f ↦ if seen.any (same f) then seen else seen ++ [f]) seen,
        g ∈ seen ++ fs := by
    induction fs generalizing seen with
    | nil => exact fun g hg ↦ List.mem_append_left _ hg
    | cons f fs ih =>
      intro g hg
      rw [List.foldl_cons] at hg
      have hmem := ih _ g hg
      split at hmem
      · exact (List.mem_append.mp hmem).elim (List.mem_append_left _)
          fun hmem ↦ List.mem_append_right _ (List.mem_cons_of_mem f hmem)
      · rwa [List.append_assoc] at hmem
  exact hfold []

/-! ## In order -/

/-- Two features have an order: both are names, or both are numbers or truth values. -/
def Comparable (f g : FeatureName) : Prop := (f.before? g).isSome

/-- What has an order among itself. -/
inductive Kind
  | text
  | number
deriving DecidableEq

/-- The kind of a feature; null has no order to anything. -/
def kind? : FeatureName → Option Kind
  | .name _ => some .text
  | .bool _ | .int _ | .float _ => some .number
  | .null => none

theorem comparable_iff {f g : FeatureName} :
    f.Comparable g ↔ f.kind? = g.kind? ∧ f.kind? ≠ none := by
  cases f <;> cases g <;> simp [Comparable, before?, kind?]

theorem Comparable.symm {f g : FeatureName} (h : f.Comparable g) : g.Comparable f := by
  rw [comparable_iff] at h ⊢
  exact ⟨h.1.symm, h.1 ▸ h.2⟩

theorem Comparable.trans {f g k : FeatureName} (h : f.Comparable g) (h' : g.Comparable k) :
    f.Comparable k := by
  rw [comparable_iff] at h h' ⊢
  exact ⟨h.1.trans h'.1, h.2⟩

/-- A feature that is entered in order is added to the others. -/
theorem perm_of_insert? {f : FeatureName} {sorted fs : List FeatureName}
    (h : insert? f sorted = some fs) : fs.Perm (f :: sorted) := by
  induction sorted generalizing fs with
  | nil =>
    rw [← Option.some.inj h]
  | cons g gs ih =>
    rw [insert?] at h
    obtain ⟨isBefore, -, h⟩ := Option.bind_eq_some_iff.mp h
    cases isBefore with
    | true =>
      rw [if_pos rfl] at h
      rw [← Option.some.inj h]
    | false =>
      rw [if_neg Bool.false_ne_true] at h
      obtain ⟨rest, hrest, rfl⟩ := Option.map_eq_some_iff.mp h
      exact ((ih hrest).cons g).trans (List.Perm.swap f g gs)

/-- A feature is entered in order if it has an order to all others. -/
theorem exists_insert? {f : FeatureName} {sorted : List FeatureName}
    (h : ∀ g ∈ sorted, f.Comparable g) : ∃ fs, insert? f sorted = some fs := by
  induction sorted with
  | nil => exact ⟨[f], rfl⟩
  | cons g gs ih =>
    obtain ⟨hg, hgs⟩ := List.forall_mem_cons.mp h
    obtain ⟨isBefore, hbefore⟩ := Option.isSome_iff_exists.mp hg
    obtain ⟨fs, hfs⟩ := ih hgs
    rw [insert?, hbefore, hfs]
    cases isBefore with
    | true => exact ⟨_, rfl⟩
    | false => exact ⟨_, rfl⟩

/-- A feature is compared with the first of the others at least. -/
theorem comparable_of_insert? {f g : FeatureName} {gs fs : List FeatureName}
    (h : insert? f (g :: gs) = some fs) : f.Comparable g := by
  rw [insert?] at h
  obtain ⟨isBefore, hbefore, -⟩ := Option.bind_eq_some_iff.mp h
  exact Option.isSome_iff_exists.mpr ⟨isBefore, hbefore⟩

/-- Features in order are the same features. -/
theorem perm_of_sort? {fs sorted : List FeatureName} (h : sort? fs = some sorted) :
    sorted.Perm fs := by
  have hfold (fs seen : List FeatureName)
      (h : fs.foldlM (fun sorted f ↦ insert? f sorted) seen = some sorted) :
      sorted.Perm (fs ++ seen) := by
    induction fs generalizing seen with
    | nil =>
      rw [← Option.some.inj h]
      rfl
    | cons f fs ih =>
      rw [List.foldlM_cons] at h
      obtain ⟨next, hnext, h⟩ := Option.bind_eq_some_iff.mp h
      exact (ih next h).trans (((perm_of_insert? hnext).append_left fs).trans List.perm_middle)
  exact List.append_nil fs ▸ hfold fs [] h

/-- **Features are put in order iff any two of them have one.** -/
theorem isSome_sort?_iff {fs : List FeatureName} :
    (sort? fs).isSome ↔ fs.Pairwise Comparable := by
  have hfold (seen : List FeatureName) (hseen : seen.Pairwise Comparable) :
      (fs.foldlM (fun sorted f ↦ insert? f sorted) seen).isSome ↔
        (seen ++ fs).Pairwise Comparable := by
    induction fs generalizing seen with
    | nil => simpa using hseen
    | cons f fs ih =>
      rw [List.foldlM_cons]
      -- the features so far all have an order, so one comparison tells about all of them
      have hstep : (∃ next, insert? f seen = some next) ↔ ∀ g ∈ seen, f.Comparable g := by
        refine ⟨fun ⟨next, hnext⟩ ↦ ?_, exists_insert?⟩
        cases seen with
        | nil => exact List.forall_mem_nil _
        | cons g gs =>
          have hfirst := comparable_of_insert? hnext
          refine List.forall_mem_cons.mpr ⟨hfirst, fun k hk ↦ ?_⟩
          exact hfirst.trans ((List.pairwise_cons.mp hseen).1 k hk)
      cases hinsert : insert? f seen with
      | none =>
        refine iff_of_false Bool.false_ne_true fun hall ↦ ?_
        have hcomparable : ∀ g ∈ seen, f.Comparable g := fun g hg ↦
          ((List.pairwise_append.mp hall).2.2 g hg f (List.mem_cons_self ..)).symm
        obtain ⟨next, hnext⟩ := hstep.mpr hcomparable
        rw [hinsert] at hnext
        cases hnext
      | some next =>
        have hperm := perm_of_insert? hinsert
        have hsymm {f g : FeatureName} : f.Comparable g → g.Comparable f := Comparable.symm
        have hnext : next.Pairwise Comparable :=
          (hperm.pairwise_iff hsymm).mpr
            (List.pairwise_cons.mpr ⟨hstep.mp ⟨next, hinsert⟩, hseen⟩)
        refine (ih next hnext).trans (List.Perm.pairwise_iff hsymm ?_)
        exact (hperm.append_right fs).trans List.perm_middle.symm
  exact hfold [] List.Pairwise.nil

end FeatureName
end NodeSchema
