import Mathlib.Data.List.Induction
import Mathlib.Data.List.Perm.Basic
import NodeSchema.Proofs.Feature.Merge

/-!
# Combining predicates in any order

Combining merges predicates one after the other, so each predicate is compared with the smallest of
those before it and with no other (`exists_combine?_iff`).  What comes out is the smallest of all
(`isSmallest_of_combine?`).  Whether anything comes out depends on the order: every order succeeds
iff every two predicates are nested, and some order does iff there is a smallest one
(`combine?_orders`).  Predicates may well have a smallest one without being nested
(`combine?_narrowestFirst`).
-/

set_option autoImplicit false

namespace NodeSchema
namespace Features

/-- If both predicates list features, all that one of them lists are listed by the other. -/
def Nested (f g : Features) : Prop :=
  f.names ≠ [] → g.names ≠ [] → f.names ⊆ g.names ∨ g.names ⊆ f.names

/-- Every two of the predicates are nested. -/
def AreNested (gates : List Features) : Prop := ∀ f ∈ gates, ∀ g ∈ gates, f.Nested g

/-- The predicate is the smallest of those that list features, or unconditional if none does. -/
def IsSmallest (f : Features) (gates : List Features) : Prop :=
  (f = always ∧ ∀ g ∈ gates, g = always) ∨
    (f ≠ always ∧ f ∈ gates ∧ ∀ g ∈ gates, g ≠ always → f.names ⊆ g.names)

variable {f g k : Features} {gates : List Features}

theorem eq_always_iff : f = always ↔ f.names = [] := by
  obtain ⟨names⟩ := f
  exact ⟨congrArg Features.names, congrArg mk⟩

theorem isAlways_iff : f.isAlways = true ↔ f.names = [] := List.isEmpty_iff

theorem subset_iff : f.subset g = true ↔ f.names ⊆ g.names := by
  simp [subset, List.subset_def]

/-! ## One step -/

/-- Nested predicates can be merged. -/
theorem exists_merge?_of_nested (h : f.Nested g) : ∃ k, f.merge? g = .ok k := by
  rw [merge?]
  split
  · exact ⟨g, rfl⟩
  · next hf =>
    split
    · exact ⟨f, rfl⟩
    · next hg =>
      split
      · exact ⟨f, rfl⟩
      · next hfg =>
        rcases h (mt isAlways_iff.mpr hf) (mt isAlways_iff.mpr hg) with hsubset | hsubset
        · exact absurd (subset_iff.mpr hsubset) hfg
        · exact ⟨g, if_pos (subset_iff.mpr hsubset)⟩

/-- Predicates that are not nested are refused, and the failure tells both. -/
theorem merge?_of_not_nested (h : ¬ f.Nested g) :
    f.merge? g = .error (.incompatibleGates f.names g.names) := by
  simp only [Nested, Classical.not_imp, not_or] at h
  obtain ⟨hf, hg, hfg, hgf⟩ := h
  rw [merge?, if_neg (mt isAlways_iff.mp hf), if_neg (mt isAlways_iff.mp hg),
    if_neg (mt subset_iff.mp hfg), if_neg (mt subset_iff.mp hgf)]

theorem nested_of_merge? (h : f.merge? g = .ok k) : f.Nested g := by
  by_contra hnested
  rw [merge?_of_not_nested hnested] at h
  cases h

/-- The narrower predicate is kept if it comes first. -/
theorem merge?_of_narrows (h : f.Narrows g) : f.merge? g = .ok f := by
  rw [merge?]
  rcases h with hg | ⟨hf, hsubset⟩
  · split
    · next hf => rw [eq_always_iff.mpr hg, eq_always_iff.mpr (isAlways_iff.mp hf)]
    · exact if_pos (isAlways_iff.mpr hg)
  · rw [if_neg (mt isAlways_iff.mp hf)]
    split
    · rfl
    · exact if_pos (subset_iff.mpr hsubset)

/-! ## The smallest predicate -/

/-- The smallest predicate is the meet. -/
theorem isSmallest_iff : f.IsSmallest gates ↔ f.IsMeet gates := by
  constructor
  · rintro (⟨rfl, hall⟩ | ⟨hne, hmem, hall⟩)
    · exact ⟨fun h ↦ absurd rfl h, fun g hg ↦ .inl (eq_always_iff.mp (hall g hg))⟩
    · refine ⟨fun _ ↦ hmem, fun g hg ↦ ?_⟩
      by_cases hg' : g = always
      · exact .inl (eq_always_iff.mp hg')
      · exact .inr ⟨mt eq_always_iff.mpr hne, hall g hg hg'⟩
  · intro h
    by_cases hf : f = always
    · refine .inl ⟨hf, fun g hg ↦ ?_⟩
      rcases h.narrows g hg with hg | ⟨hne, -⟩
      · exact eq_always_iff.mpr hg
      · exact absurd (eq_always_iff.mp hf) hne
    · refine .inr ⟨hf, h.mem (mt eq_always_iff.mpr hf), fun g hg hne ↦ ?_⟩
      exact h.subset hg (mt eq_always_iff.mpr hne)

/-- Only one set of features is the smallest. -/
theorem IsSmallest.unique (hf : f.IsSmallest gates) (hg : g.IsSmallest gates) :
    f.names ⊆ g.names := by
  rcases hf with ⟨rfl, -⟩ | ⟨hfne, hfmem, hfall⟩
  · exact List.nil_subset _
  · rcases hg with ⟨rfl, hall⟩ | ⟨hgne, hgmem, -⟩
    · exact absurd (hall f hfmem) hfne
    · exact hfall g hgmem hgne

theorem IsSmallest.perm (h : f.IsSmallest gates) {gates' : List Features}
    (hperm : gates.Perm gates') : f.IsSmallest gates' := by
  simpa only [IsSmallest, hperm.mem_iff] using h

theorem Nested.congr (h : f.Nested k) (hfg : f.names ⊆ g.names) (hgf : g.names ⊆ f.names) :
    g.Nested k := by
  intro hg hk
  have hf : f.names ≠ [] := fun hf ↦ hg (List.subset_nil.mp (hf ▸ hgf))
  exact (h hf hk).imp (List.Subset.trans hgf) fun hkf ↦ List.Subset.trans hkf hfg

/-! ## A list in its order -/

theorem combine?_concat (gates : List Features) (g : Features) :
    combine? (gates ++ [g]) = combine? gates >>= fun f ↦ f.merge? g := by
  rw [combine?, List.foldlM_append]
  simp only [List.foldlM_cons, List.foldlM_nil, bind_pure]
  rfl

theorem combine?_cons (f : Features) (gates : List Features) :
    combine? (f :: gates) = gates.foldlM merge? f := rfl

/-- Merging goes on with a predicate that is narrower than all to come. -/
theorem foldlM_of_narrows (h : ∀ g ∈ gates, f.Narrows g) : gates.foldlM merge? f = .ok f := by
  induction gates with
  | nil => rfl
  | cons g gates ih =>
    obtain ⟨hg, hgates⟩ := List.forall_mem_cons.mp h
    rw [List.foldlM_cons, merge?_of_narrows hg]
    exact ih hgates

/-- **What predicates are combined to is the smallest of them.** -/
theorem isSmallest_of_combine? (h : combine? gates = .ok f) : f.IsSmallest gates := by
  rw [isSmallest_iff]
  induction gates using List.reverseRecOn generalizing f with
  | nil =>
    cases h
    exact isMeet_nil
  | append_singleton gates g ih =>
    rw [combine?_concat] at h
    obtain ⟨m, hm, h⟩ := bind_eq_ok.mp h
    exact (ih hm).merge (isMeet_self g) h

/-- **Predicates are combined iff each is nested with the smallest of those before it.** -/
theorem exists_combine?_iff : (∃ k, combine? gates = .ok k) ↔
    ∀ before g, before ++ [g] <+: gates → ∀ f, IsSmallest f before → Nested f g := by
  induction gates using List.reverseRecOn with
  | nil =>
    refine ⟨fun _ before g h ↦ ?_, fun _ ↦ ⟨always, rfl⟩⟩
    exact absurd (List.prefix_nil.mp h) (List.concat_ne_nil g before)
  | append_singleton gates last ih =>
    rw [combine?_concat]
    constructor
    · rintro ⟨k, hk⟩ before g hfirst f hf
      obtain ⟨m, hm, hmerge⟩ := bind_eq_ok.mp hk
      rcases List.prefix_concat_iff.mp hfirst with heq | hfirst
      · obtain ⟨rfl, hlast⟩ := List.append_inj' heq rfl
        obtain rfl := List.singleton_inj.mp hlast
        have hsmallest := isSmallest_of_combine? hm
        exact (nested_of_merge? hmerge).congr (hsmallest.unique hf) (hf.unique hsmallest)
      · exact ih.mp ⟨m, hm⟩ before g hfirst f hf
    · intro h
      obtain ⟨m, hm⟩ := ih.mpr fun before g hfirst ↦
        h before g (hfirst.trans (List.prefix_append gates [last]))
      obtain ⟨k, hk⟩ := exists_merge?_of_nested
        (h gates last (List.prefix_refl _) m (isSmallest_of_combine? hm))
      exact ⟨k, bind_eq_ok.mpr ⟨m, hm, hk⟩⟩

/-- The first predicate that is refused is told together with what those before it came to. -/
theorem exists_of_combine?_eq_error {e : Failure} (h : combine? gates = .error e) :
    ∃ f ∈ gates, ∃ g ∈ gates, ¬ f.Nested g ∧ e = .incompatibleGates f.names g.names := by
  induction gates using List.reverseRecOn with
  | nil => cases h
  | append_singleton gates g ih =>
    rw [combine?_concat] at h
    rcases bind_eq_error.mp h with h | ⟨m, hm, h⟩
    · obtain ⟨f, hf, g, hg, hfg⟩ := ih h
      exact ⟨f, List.mem_append_left _ hf, g, List.mem_append_left _ hg, hfg⟩
    · have hnested : ¬ m.Nested g := by
        intro hnested
        obtain ⟨k, hk⟩ := exists_merge?_of_nested hnested
        rw [hk] at h
        cases h
      rw [merge?_of_not_nested hnested] at h
      have hne : m.names ≠ [] := fun hnil ↦ hnested fun hm ↦ absurd hnil hm
      have hmem := (isSmallest_iff.mp (isSmallest_of_combine? hm)).mem hne
      exact ⟨m, List.mem_append_left _ hmem, g, List.mem_concat_self, hnested,
        (Except.error.inj h).symm⟩

/-! ## A list in any order -/

/-- Nested predicates are combined in whatever order they come. -/
theorem exists_combine?_of_areNested (h : AreNested gates) : ∃ k, combine? gates = .ok k := by
  rw [exists_combine?_iff]
  intro before g hfirst f hf
  have hg : g ∈ gates := hfirst.subset List.mem_concat_self
  rcases hf with ⟨rfl, -⟩ | ⟨-, hf, -⟩
  · exact fun h ↦ absurd rfl h
  · exact h f (hfirst.subset (List.mem_append_left _ hf)) g hg

/-- Predicates that are not nested are refused in some order: two that are not may come first. -/
theorem exists_perm_of_not_areNested (h : ¬ AreNested gates) :
    ∃ gates', gates.Perm gates' ∧ ∃ e, combine? gates' = .error e := by
  simp only [AreNested, not_forall] at h
  obtain ⟨f, hf, g, hg, hnested⟩ := h
  have hne : g ≠ f := by
    rintro rfl
    exact hnested fun _ _ ↦ .inl (List.Subset.refl _)
  have hg' : g ∈ gates.erase f := (List.mem_erase_of_ne hne).mpr hg
  refine ⟨f :: g :: (gates.erase f).erase g, ?_, .incompatibleGates f.names g.names, ?_⟩
  · exact (List.perm_cons_erase hf).trans ((List.perm_cons_erase hg').cons f)
  · rw [combine?_cons, List.foldlM_cons, merge?_of_not_nested hnested]
    rfl

/-- Predicates are combined if the smallest comes first. -/
theorem exists_perm_of_isSmallest (h : f.IsSmallest gates) :
    ∃ gates', gates.Perm gates' ∧ ∃ k, combine? gates' = .ok k := by
  rcases h with ⟨rfl, hall⟩ | ⟨hne, hf, hall⟩
  · refine ⟨gates, .refl _, exists_combine?_of_areNested fun f hf _ _ hfne ↦ ?_⟩
    exact absurd (eq_always_iff.mp (hall f hf)) hfne
  · refine ⟨f :: gates.erase f, List.perm_cons_erase hf, f, ?_⟩
    have hnarrows := (isSmallest_iff.mp (.inr ⟨hne, hf, hall⟩)).narrows
    rw [combine?_cons]
    exact foldlM_of_narrows fun g hg ↦ hnarrows g (List.mem_of_mem_erase hg)

/-- **Combining predicates in whatever order they come.**  What comes out is the smallest of them,
and a failure tells two that are not nested.  Every order succeeds iff every two are nested, and
some order does iff there is a smallest one.  So it is told by the nesting whether an order succeeds
iff they are nested or there is no smallest one. -/
theorem combine?_orders (gates : List Features) :
    (∀ gates', gates.Perm gates' →
      (∀ f, combine? gates' = .ok f → f.IsSmallest gates) ∧
      ∀ e, combine? gates' = .error e → e.category = .construct ∧
        ∃ f ∈ gates, ∃ g ∈ gates, ¬ f.Nested g ∧ e = .incompatibleGates f.names g.names) ∧
    ((∀ gates', gates.Perm gates' → ∃ f, combine? gates' = .ok f) ↔ AreNested gates) ∧
    ((∃ gates', gates.Perm gates' ∧ ∃ f, combine? gates' = .ok f) ↔ ∃ f, IsSmallest f gates) ∧
    ((∀ gates', gates.Perm gates' → ((∃ f, combine? gates' = .ok f) ↔ AreNested gates)) ↔
      AreNested gates ∨ ¬ ∃ f, IsSmallest f gates) := by
  have hsmallest {gates' : List Features} (hperm : gates.Perm gates') {f : Features}
      (h : combine? gates' = .ok f) : f.IsSmallest gates :=
    (isSmallest_of_combine? h).perm hperm.symm
  have hevery (h : AreNested gates) {gates' : List Features} (hperm : gates.Perm gates') :
      ∃ f, combine? gates' = .ok f := by
    refine exists_combine?_of_areNested fun f hf g hg ↦ ?_
    exact h f (hperm.mem_iff.mpr hf) g (hperm.mem_iff.mpr hg)
  refine ⟨fun gates' hperm ↦ ⟨fun f ↦ hsmallest hperm, fun e he ↦ ?_⟩,
    ⟨fun h ↦ ?_, fun h _ ↦ hevery h⟩, ⟨?_, fun ⟨f, hf⟩ ↦ exists_perm_of_isSmallest hf⟩,
    fun h ↦ ?_, ?_⟩
  · obtain ⟨f, hf, g, hg, hnested, rfl⟩ := exists_of_combine?_eq_error he
    exact ⟨rfl, f, hperm.mem_iff.mpr hf, g, hperm.mem_iff.mpr hg, hnested, rfl⟩
  · by_contra hnested
    obtain ⟨gates', hperm, e, he⟩ := exists_perm_of_not_areNested hnested
    obtain ⟨f, hf⟩ := h gates' hperm
    rw [hf] at he
    cases he
  · rintro ⟨gates', hperm, f, hf⟩
    exact ⟨f, hsmallest hperm hf⟩
  · refine or_iff_not_imp_right.mpr fun hex ↦ ?_
    obtain ⟨f, hf⟩ := not_not.mp hex
    obtain ⟨gates', hperm, hok⟩ := exists_perm_of_isSmallest hf
    exact (h gates' hperm).mp hok
  · rintro (hnested | hnone) gates' hperm
    · exact iff_of_true (hevery hnested hperm) hnested
    · refine iff_of_false (fun ⟨f, hf⟩ ↦ hnone ⟨f, hsmallest hperm hf⟩) fun hnested ↦ ?_
      obtain ⟨f, hf⟩ := hevery hnested hperm
      exact hnone ⟨f, hsmallest hperm hf⟩

/-- Three predicates of which the first is the smallest and the others are not nested. -/
def narrowestFirst : List Features := [.ofList ["a"], .ofList ["a", "b"], .ofList ["a", "c"]]

/-- **Predicates that are not nested may be combined**: it depends on their order. -/
theorem combine?_narrowestFirst : ¬ AreNested narrowestFirst ∧
    combine? narrowestFirst = .ok (.ofList ["a"]) ∧
    combine? narrowestFirst.reverse = .error (.incompatibleGates ["a", "c"] ["a", "b"]) := by
  refine ⟨fun h ↦ ?_, by decide +kernel, by decide +kernel⟩
  have hnested := h (.ofList ["a", "b"]) (by decide) (.ofList ["a", "c"]) (by decide)
  exact absurd hnested (by unfold Nested; decide +kernel)

end Features
end NodeSchema
