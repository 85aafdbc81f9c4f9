import Mathlib.Data.List.DropRight
import NodeSchema.Proofs.Crawl.Declarations
import NodeSchema.Proofs.Declaration
import NodeSchema.Proofs.Feature.Merge

/-!
# The gates of what a crawl records

A declaration is gated by its own marker, by the `cfg` attributes of its macro call, and by what
stands above it: the `cfg` attributes of the `mod` declarations from the root on, and what the
crawl inherited.  A module whose feature is forced cuts this off: of everything above and on the
innermost such module only the forced feature counts (`Crate.ceiling`, `Crate.freeModules`).

What is recorded is the meet of all these gates (`gates_of_crawled`).  It is shown along the chain
of `mod` declarations: each adds its attributes to the gates before it, or replaces them
(`isMeet_of_resolve_gatesOf`).
-/

set_option autoImplicit false

namespace NodeSchema
namespace Crate

open Rust

/-! ## The gates -/

/-- The `mod` declarations below the innermost module whose feature is forced. -/
def freeModules (s : CrawlSettings) (chain : List ModDeclaration) : List ModDeclaration :=
  chain.rtakeWhile fun m ↦ (s.forced.find? m.name).isNone

/-- The feature of the innermost module whose feature is forced, or what is inherited. -/
def ceiling (s : CrawlSettings) (inherited : Features) (chain : List ModDeclaration) : Features :=
  match chain.reverse.findSome? fun m ↦ s.forced.find? m.name with
  | some feature => .ofList [feature]
  | none => inherited

namespace Found

/-- The gate of the marker of a declaration. -/
def marker (f : Found) : Features :=
  match f.item.item.body with
  | .macroCall call =>
    if Declaration.isMarked f.source call then .ofList [Declaration.fullMarker] else .always
  | _ => .always

/-- The attributes that gate a declaration: those of the modules above it that count, and those of
its macro call. -/
def attributes (s : CrawlSettings) (f : Found) : List Attribute :=
  (freeModules s f.modules).flatMap ModDeclaration.attributes ++ gatingAttributes f.item

/-- All gates of a declaration. -/
def gates (s : CrawlSettings) (inherited : Features) (f : Found) :
    Except Failure (List Features) :=
  (Cfg.predicates (f.attributes s)).map fun gs ↦ f.marker :: ceiling s inherited f.modules :: gs

end Found

variable {c : Crate} {s : CrawlSettings} {inherited : Features} {chain : List ModDeclaration}
  {m : ModDeclaration}

theorem freeModules_forced {feature : String} (h : s.forced.find? m.name = some feature) :
    freeModules s (chain ++ [m]) = [] :=
  List.rtakeWhile_concat_neg _ _ _ (by simp [h])

theorem freeModules_free (h : s.forced.find? m.name = none) :
    freeModules s (chain ++ [m]) = freeModules s chain ++ [m] :=
  List.rtakeWhile_concat_pos _ _ _ (by simp [h])

theorem ceiling_forced {feature : String} (h : s.forced.find? m.name = some feature) :
    ceiling s inherited (chain ++ [m]) = .ofList [feature] := by
  rw [ceiling, List.reverse_concat, List.findSome?_cons, h]

theorem ceiling_free (h : s.forced.find? m.name = none) :
    ceiling s inherited (chain ++ [m]) = ceiling s inherited chain := by
  rw [ceiling, List.reverse_concat, List.findSome?_cons, h]
  rfl

/-- **What gates come to along a chain of `mod` declarations**: the meet of what is above the
innermost forced module and of the attributes below it. -/
theorem isMeet_of_resolve_gatesOf {f : Features}
    (h : Gate.resolve (gatesOf s (Gate.ofFeatures inherited) chain) = .ok f) :
    ∃ gs, Cfg.predicates ((freeModules s chain).flatMap ModDeclaration.attributes) = .ok gs ∧
      f.IsMeet (ceiling s inherited chain :: gs) := by
  induction chain using List.reverseRecOn generalizing f with
  | nil =>
    cases (Gate.resolve_ofFeatures inherited).symm.trans h
    exact ⟨[], rfl, Features.isMeet_self _⟩
  | append_singleton chain m ih =>
    rw [gatesOf_concat, moduleGates] at h
    cases hforced : s.forced.find? m.name with
    | some feature =>
      rw [hforced] at h
      cases (Gate.resolve_ofFeatures (.ofList [feature])).symm.trans h
      rw [freeModules_forced hforced, ceiling_forced hforced]
      exact ⟨[], rfl, Features.isMeet_self _⟩
    | none =>
      rw [hforced] at h
      obtain ⟨g, added, hg, hadded, hmeet⟩ := Gate.isMeet_of_resolve_add h
      obtain ⟨gs, hgs, hg⟩ := ih hg
      rw [freeModules_free hforced, ceiling_free hforced, List.flatMap_append,
        List.flatMap_singleton]
      exact ⟨gs ++ added, Cfg.predicates_append hgs hadded, hmeet _ hg⟩

/-! ## Records -/

section FileParser

variable [FileParser]

/-- A declaration comes with the gate of its marker. -/
theorem features_of_declares {f : Found} (h : c.Declares f.source f.item f.declaration) :
    f.declaration.features = f.marker := by
  cases h with
  | macroCall hbody h =>
    rw [Found.marker, hbody]
    exact Declaration.features_of_recognize h
  | struct hbody _ h =>
    rw [Found.marker, hbody]
    exact Declaration.features_ofStruct h

/-- **What is recorded is the meet of all gates.** -/
theorem isMeet_of_recorded {f : Found} {d : Declaration}
    (hdeclares : c.Declares f.source f.item f.declaration)
    (h : f.recorded s (Gate.ofFeatures inherited) = .ok d) :
    ∃ gates, f.gates s inherited = .ok gates ∧ d.features.IsMeet gates := by
  obtain ⟨gate, hgate, hd⟩ := bind_eq_ok.mp h
  obtain ⟨features, hmerge, rfl⟩ := map_eq_ok.mp hd
  obtain ⟨g, called, hg, hcalled, hmeet⟩ := Gate.isMeet_of_resolve_add hgate
  obtain ⟨under, hunder, hg⟩ := isMeet_of_resolve_gatesOf hg
  rw [features_of_declares hdeclares] at hmerge
  refine ⟨_, map_eq_ok.mpr ⟨_, Cfg.predicates_append hunder hcalled, rfl⟩, ?_⟩
  exact (Features.isMeet_self f.marker).merge (hmeet _ hg) hmerge

/-- **The gates of everything that a crawl records.**  The recorded predicate holds iff all gates
of the declaration do, whatever features are enabled.  If it is not unconditional, it is one of the
gates, and lists no feature that one of them leaves out. -/
theorem gates_of_crawled {path : Path} {l : Lookup} (h : c.Crawls path inherited l) :
    ∃ source items found, c.Holds path source items ∧ c.Walk [] path source items found ∧
      ∀ ident d, l.declarations.find? ident = some d →
        ∃ f gates, lastOf ident found = some f ∧ f.gates c.settings inherited = .ok gates ∧
          (∀ enabled, d.features.holds enabled = true ↔ ∀ g ∈ gates, g.holds enabled = true) ∧
          (d.features.names ≠ [] → d.features ∈ gates ∧
            ∀ g ∈ gates, g.names ≠ [] → d.features.names ⊆ g.names) := by
  obtain ⟨source, items, found, renames, hholds, hwalk, henters⟩ := walk_of_crawls h
  refine ⟨source, items, found, hholds, hwalk, fun ident d hd ↦ ?_⟩
  have hrecorded := henters.find?_declarations ident
  rw [hd, Option.map_some, Option.map_eq_some_iff] at hrecorded
  obtain ⟨f, hlast, hf⟩ := hrecorded
  have hfound : f ∈ found := (List.mem_filter.mp (List.mem_of_getLast? hlast)).1
  obtain ⟨_, _, _, _, _, hdeclares⟩ :=
    hwalk.exists_reachable hholds (List.Subset.refl _) f hfound
  obtain ⟨gates, hgates, hmeet⟩ := isMeet_of_recorded hdeclares hf
  exact ⟨f, gates, hlast, hgates, hmeet.holds_iff,
    fun hne ↦ ⟨hmeet.mem hne, fun g hg hgne ↦ hmeet.subset hg hgne⟩⟩

end FileParser

theorem gates_of_crawled_sample : sample.Crawls sampleRoot .always sampleLookup ∧
    ∃ gates : List Features,
      (∀ enabled, Features.holds ⟨["full"]⟩ enabled = true ↔
        ∀ g ∈ gates, g.holds enabled = true) ∧ ⟨["full"]⟩ ∈ gates := by
  have hcrawls : sample.Crawls sampleRoot .always sampleLookup := .inl ⟨rfl, crawl_sample⟩
  obtain ⟨_, _, _, _, _, hgates⟩ := gates_of_crawled hcrawls
  obtain ⟨_, gates, _, _, hholds, hmem⟩ := hgates "Lit" ⟨"Lit", .struct [], ⟨["full"]⟩⟩ rfl
  exact ⟨hcrawls, gates, hholds, (hmem (by decide)).1⟩

end Crate
end NodeSchema
