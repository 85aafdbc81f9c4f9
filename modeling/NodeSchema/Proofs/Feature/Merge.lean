import NodeSchema.Feature.Gate
import NodeSchema.Proofs.Result

/-!
# Merged gates are conjunctions

Merging two predicates shrinks a set of names, and is refused unless one set lies in the other.
Read as conditions on the enabled features, the smaller set is the stronger condition
(`narrows_iff`), so a merge that is not refused is the conjunction of the two.

`IsMeet` says this of any number of gates: the predicate implies every gate and is one of them,
unless it is unconditional.  It is kept by `merge?` and so by everything that merges one gate after
the other:

* `isMeet_ofAttributes` — the predicate of attributes is the meet of what the `cfg` attributes
  among them spell;
* `isMeet_of_resolve_add` — resolving gates to which attributes were added comes to the meet of
  what was there before and what those attributes spell.
-/

set_option autoImplicit false

namespace NodeSchema

open Rust (Attribute)

namespace Features

/-! ## Narrower predicates -/

/-- The first predicate lists some of the features that the second one does, if that one lists
any. -/
def Narrows (f g : Features) : Prop := g.names = [] ∨ f.names ≠ [] ∧ f.names ⊆ g.names

theorem narrows_refl (f : Features) : f.Narrows f := by
  rcases eq_or_ne f.names [] with h | h
  · exact .inl h
  · exact .inr ⟨h, List.Subset.refl _⟩

theorem Narrows.trans {f g h : Features} (hfg : f.Narrows g) (hgh : g.Narrows h) :
    f.Narrows h := by
  rcases hgh with hh | ⟨hg, hgh⟩
  · exact .inl hh
  · rcases hfg with hg' | ⟨hf, hfg⟩
    · exact absurd hg' hg
    · exact .inr ⟨hf, List.Subset.trans hfg hgh⟩

theorem holds_iff {f : Features} {enabled : String → Bool} :
    f.holds enabled = true ↔ f.names = [] ∨ ∃ name ∈ f.names, enabled name = true := by
  rw [holds, isAlways, Bool.or_eq_true, List.isEmpty_iff, List.any_eq_true]

/-- **A predicate is narrower than another iff it implies it**, whatever features are enabled. -/
theorem narrows_iff {f g : Features} :
    f.Narrows g ↔ ∀ enabled, f.holds enabled = true → g.holds enabled = true := by
  constructor
  · rintro (hg | ⟨hf, hsubset⟩) enabled hholds
    · exact holds_iff.mpr (.inl hg)
    · rcases holds_iff.mp hholds with hnil | ⟨name, hname, henabled⟩
      · exact absurd hnil hf
      · exact holds_iff.mpr (.inr ⟨name, hsubset hname, henabled⟩)
  · intro h
    by_cases hg : g.names = []
    · exact .inl hg
    refine .inr ⟨fun hf ↦ ?_, fun name hname ↦ ?_⟩
    · -- With no feature enabled an unconditional predicate holds, and no other.
      rcases holds_iff.mp (h (fun _ ↦ false) (holds_iff.mpr (.inl hf))) with hnil | ⟨_, _, hfalse⟩
      · exact hg hnil
      · exact Bool.false_ne_true hfalse
    · have hholds : f.holds (· == name) = true :=
        holds_iff.mpr (.inr ⟨name, hname, beq_self_eq_true name⟩)
      rcases holds_iff.mp (h _ hholds) with hnil | ⟨other, hother, heq⟩
      · exact absurd hnil hg
      · exact eq_of_beq heq ▸ hother

/-- Of two predicates that can be merged, the narrower one is kept. -/
theorem merge?_eq_ok {f g k : Features} (h : f.merge? g = .ok k) :
    (k = f ∧ f.Narrows g) ∨ (k = g ∧ g.Narrows f) := by
  have hsubset {a b : Features} (hab : a.subset b = true) : a.names ⊆ b.names := fun name hname ↦
    List.contains_iff_mem.mp (List.all_eq_true.mp hab name hname)
  rw [merge?] at h
  split at h
  · next hf => exact .inr ⟨(Except.ok.inj h).symm, .inl (List.isEmpty_iff.mp hf)⟩
  · next hf =>
    split at h
    · next hg => exact .inl ⟨(Except.ok.inj h).symm, .inl (List.isEmpty_iff.mp hg)⟩
    · next hg =>
      split at h
      · next hfg =>
        exact .inl ⟨(Except.ok.inj h).symm, .inr ⟨mt List.isEmpty_iff.mpr hf, hsubset hfg⟩⟩
      · split at h
        · next hgf =>
          exact .inr ⟨(Except.ok.inj h).symm, .inr ⟨mt List.isEmpty_iff.mpr hg, hsubset hgf⟩⟩
        · cases h

/-! ## Meets -/

/-- A predicate is the conjunction of gates, and one of them. -/
structure IsMeet (f : Features) (gates : List Features) : Prop where
  mem : f.names ≠ [] → f ∈ gates
  narrows : ∀ g ∈ gates, f.Narrows g

theorem merge?_always (f : Features) : f.merge? .always = .ok f := by
  obtain ⟨names⟩ := f
  cases names with
  | nil => rfl
  | cons name names => rfl

theorem isMeet_nil : always.IsMeet [] := ⟨fun h ↦ absurd rfl h, by simp⟩

theorem isMeet_self (f : Features) : f.IsMeet [f] :=
  ⟨fun _ ↦ List.mem_singleton.mpr rfl, List.forall_mem_singleton.mpr (narrows_refl f)⟩

/-- **Merging two meets gives the meet of all their gates.** -/
theorem IsMeet.merge {f g k : Features} {fs gs : List Features} (hf : f.IsMeet fs)
    (hg : g.IsMeet gs) (h : f.merge? g = .ok k) : k.IsMeet (fs ++ gs) := by
  rcases merge?_eq_ok h with ⟨rfl, hfg⟩ | ⟨rfl, hgf⟩
  · refine ⟨fun hne ↦ List.mem_append_left _ (hf.mem hne), fun a ha ↦ ?_⟩
    rcases List.mem_append.mp ha with ha | ha
    · exact hf.narrows a ha
    · exact hfg.trans (hg.narrows a ha)
  · refine ⟨fun hne ↦ List.mem_append_right _ (hg.mem hne), fun a ha ↦ ?_⟩
    rcases List.mem_append.mp ha with ha | ha
    · exact hgf.trans (hf.narrows a ha)
    · exact hg.narrows a ha

/-- A meet holds iff every gate does. -/
theorem IsMeet.holds_iff {f : Features} {gates : List Features} (hf : f.IsMeet gates)
    (enabled : String → Bool) :
    f.holds enabled = true ↔ ∀ g ∈ gates, g.holds enabled = true := by
  refine ⟨fun h g hg ↦ narrows_iff.mp (hf.narrows g hg) enabled h, fun h ↦ ?_⟩
  rcases eq_or_ne f.names [] with hnil | hne
  · exact Features.holds_iff.mpr (.inl hnil)
  · exact h f (hf.mem hne)

/-- A meet lists no feature that is not listed by every gate that lists any. -/
theorem IsMeet.subset {f : Features} {gates : List Features} (hf : f.IsMeet gates) {g : Features}
    (hg : g ∈ gates) (hne : g.names ≠ []) : f.names ⊆ g.names := by
  rcases hf.narrows g hg with hnil | ⟨-, hsubset⟩
  · exact absurd hnil hne
  · exact hsubset

end Features

open Features

/-! ## Attributes -/

namespace Cfg

/-- What the `cfg` attributes among attributes spell, one by one. -/
def predicates (attributes : List Attribute) : Except Failure (List Features) :=
  (select attributes).mapM ofAttribute

theorem select_append (as bs : List Attribute) : select (as ++ bs) = select as ++ select bs :=
  List.filter_append as bs

theorem select_select (as : List Attribute) : select (select as) = select as := by
  simp [select]

theorem predicates_append {as bs : List Attribute} {fs gs : List Features}
    (hf : predicates as = .ok fs) (hg : predicates bs = .ok gs) :
    predicates (as ++ bs) = .ok (fs ++ gs) := by
  rw [predicates, select_append, List.mapM_append]
  exact bind_eq_ok.mpr ⟨fs, hf, bind_eq_ok.mpr ⟨gs, hg, rfl⟩⟩

theorem isMeet_combineFrom {as : List Attribute} {f k : Features} {fs : List Features}
    (hf : f.IsMeet fs) (h : combineFrom f as = .ok k) :
    ∃ gs, as.mapM ofAttribute = .ok gs ∧ k.IsMeet (fs ++ gs) := by
  induction as generalizing f fs with
  | nil =>
    cases h
    exact ⟨[], rfl, by rwa [List.append_nil]⟩
  | cons a as ih =>
    obtain ⟨g, hg, h⟩ := bind_eq_ok.mp h
    obtain ⟨merged, hmerged, h⟩ := bind_eq_ok.mp h
    obtain ⟨gs, hgs, hk⟩ := ih (hf.merge (isMeet_self g) hmerged) h
    refine ⟨g :: gs, ?_, by rwa [List.append_assoc] at hk⟩
    rw [List.mapM_cons]
    exact bind_eq_ok.mpr ⟨g, hg, bind_eq_ok.mpr ⟨gs, hgs, rfl⟩⟩

/-- **The predicate of attributes is the meet of what the `cfg` attributes spell.** -/
theorem isMeet_ofAttributes {attributes : List Attribute} {f : Features}
    (h : ofAttributes attributes = .ok f) : ∃ fs, predicates attributes = .ok fs ∧ f.IsMeet fs :=
  isMeet_combineFrom isMeet_nil h

end Cfg

/-! ## Gates -/

namespace Gate

theorem resolveFrom_concat (f : Features) (gates : List Gate) (g : Gate) :
    resolveFrom f (gates ++ [g]) =
      resolveFrom f gates >>= fun h ↦ g.read >>= fun k ↦ h.merge? k := by
  induction gates generalizing f with
  | nil =>
    show (g.read >>= fun k ↦ f.merge? k >>= pure) = _
    simp only [bind_pure]
    rfl
  | cons a as ih =>
    show (a.read >>= fun k ↦ f.merge? k >>= fun m ↦ resolveFrom m (as ++ [g])) =
      (a.read >>= fun k ↦ f.merge? k >>= fun m ↦ resolveFrom m as) >>= _
    simp only [ih, bind_assoc]

/-- The one gate that a predicate gives resolves to it. -/
theorem resolve_ofFeatures (f : Features) : resolve (ofFeatures f) = .ok f := by
  rw [ofFeatures]
  split
  · next hf =>
    obtain ⟨names⟩ := f
    rw [isAlways, List.isEmpty_iff] at hf
    rw [show names = [] from hf]
    rfl
  · rfl

/-- **Attributes that are added to gates are merged to what the gates come to.** -/
theorem resolve_add (gates : List Gate) (attributes : List Attribute) :
    resolve (add gates attributes) =
      resolve gates >>= fun f ↦ Cfg.ofAttributes attributes >>= fun g ↦ f.merge? g := by
  rw [add, Cfg.ofAttributes]
  cases hselect : Cfg.select attributes with
  | nil =>
    show resolve gates = resolve gates >>= fun f ↦ f.merge? .always
    simp only [Features.merge?_always]
    exact (bind_pure _).symm
  | cons a cfgs =>
    have hread : (written (a :: cfgs)).read = Cfg.combineFrom .always (a :: cfgs) := by
      rw [read, Cfg.ofAttributes, ← hselect, Cfg.select_select]
    show resolve (gates ++ [written (a :: cfgs)]) = _
    rw [resolve, resolveFrom_concat, hread]
    rfl

theorem resolve_add_congr {gates gates' : List Gate} (h : resolve gates = resolve gates')
    {as as' : List Attribute} (has : Cfg.ofAttributes as = Cfg.ofAttributes as') :
    resolve (add gates as) = resolve (add gates' as') := by
  rw [resolve_add, resolve_add, h, has]

/-- What gates come to is met with what the attributes spell that are added to them. -/
theorem isMeet_of_resolve_add {gates : List Gate} {attributes : List Attribute} {k : Features}
    (h : resolve (add gates attributes) = .ok k) :
    ∃ f gs, resolve gates = .ok f ∧ Cfg.predicates attributes = .ok gs ∧
      ∀ fs, f.IsMeet fs → k.IsMeet (fs ++ gs) := by
  rw [resolve_add] at h
  obtain ⟨f, hf, h⟩ := bind_eq_ok.mp h
  obtain ⟨g, hg, h⟩ := bind_eq_ok.mp h
  obtain ⟨gs, hgs, hmeet⟩ := Cfg.isMeet_ofAttributes hg
  exact ⟨f, gs, hf, hgs, fun fs hfs ↦ hfs.merge hmeet h⟩

end Gate
end NodeSchema
