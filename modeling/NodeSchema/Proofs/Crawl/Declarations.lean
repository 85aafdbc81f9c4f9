import NodeSchema.Proofs.Crawl.Walk
import NodeSchema.Proofs.Schema.Closed
import NodeSchema.Rust.Grammar.File

/-!
# What a crawl records

A crawl that succeeds records exactly what the reachable files declare: a file is reachable if it
is the root or is named by a `mod` declaration of a reachable file (`Crate.Reachable`).  Of several
declarations with one name the last in depth-first order is recorded (`Crate.lastOf`), and aliases
are the renames of the public imports of the root file (`crawl_finds`).

That every reachable file is on the walk, and no other, is shown once for each direction:

* `Walk.exists_reachable` — what is found stands in a reachable file;
* `Walk.exists_walk_of_reachable` — a reachable file has a walk of its own inside the walk.

No crate has to be assumed not to include itself: a walk is finite (`Walk.acc`).  That a crate which
does not is never cut off is shown apart, in `NodeSchema.Proofs.Crawl.Depth`.
-/

set_option autoImplicit false

namespace NodeSchema

/-- A declaration without its gate. -/
def Declaration.ungated (d : Declaration) : Declaration := { d with features := .always }

namespace Crate

open Rust Relation

variable {c : Crate} {chain : List ModDeclaration} {path : Path} {source : Source}
  {items : List (Attributed Item)} {found : List Found}

theorem NamesFile.unique {i : Attributed Item} {child child' : Path}
    (h : c.NamesFile source path i child) (h' : c.NamesFile source path i child') :
    child = child' := by
  obtain ⟨-, -, file, hfile, rfl⟩ := h
  obtain ⟨-, -, file', hfile', rfl⟩ := h'
  rw [Except.ok.inj (hfile.symm.trans hfile')]

/-! ## What is recorded -/

/-- Of several declarations with one name, the last. -/
def lastOf (ident : String) (found : List Found) : Option Found :=
  (found.filter fun f ↦ f.declaration.ident = ident).getLast?

theorem lastOf_eq_none_iff {ident : String} :
    lastOf ident found = none ↔ ∀ f ∈ found, f.declaration.ident ≠ ident := by
  rw [lastOf, List.getLast?_eq_none_iff, List.filter_eq_nil_iff]
  simp only [decide_eq_true_eq, ne_eq]

theorem ungated_of_gated {d d' : Declaration} {gate : Features} (h : d.gated gate = .ok d') :
    d'.ungated = d.ungated := by
  obtain ⟨features, -, rfl⟩ := map_eq_ok.mp h
  rfl

/-- A declaration is recorded as it was found, apart from its gate. -/
theorem ungated_of_recorded {inherited : List Gate} {f : Found} {d : Declaration}
    (h : f.recorded c.settings inherited = .ok d) : d.ungated = f.declaration.ungated := by
  obtain ⟨gate, -, hd⟩ := bind_eq_ok.mp h
  exact ungated_of_gated hd

theorem ident_of_recorded {inherited : List Gate} {f : Found} {d : Declaration}
    (h : f.recorded c.settings inherited = .ok d) : d.ident = f.declaration.ident := by
  have hungated : d.ungated.ident = f.declaration.ungated.ident := by rw [ungated_of_recorded h]
  exact hungated

/-- **Under each name the last declaration is recorded**, with its gates. -/
theorem Enters.find?_declarations {inherited : List Gate} {renames : List (String × String)}
    {l : Lookup} (h : c.Enters inherited found renames .empty l) (ident : String) :
    (lastOf ident found).map (Found.recorded c.settings inherited) =
      (l.declarations.find? ident).map .ok := by
  obtain ⟨ds, hds, hdeclarations⟩ := h.declarations
  have hvalues : Table.valuesOf ident (ds.map fun d ↦ (d.ident, d)) =
      ds.filter fun d ↦ d.ident = ident := by
    rw [Table.valuesOf, List.filter_map, List.map_map]
    exact List.map_id _
  have hfilter : List.Forall₂ (fun f d ↦ f.recorded c.settings inherited = .ok d)
      (found.filter fun f ↦ f.declaration.ident = ident) (ds.filter fun d ↦ d.ident = ident) := by
    refine List.rel_filter (fun f d hfd ↦ ?_) hds
    dsimp only
    rw [ident_of_recorded hfd]
  have hmap : (found.filter fun f ↦ f.declaration.ident = ident).map
      (Found.recorded c.settings inherited) = (ds.filter fun d ↦ d.ident = ident).map .ok := by
    rwa [← List.forall₂_eq_eq_eq, List.forall₂_map_left_iff, List.forall₂_map_right_iff]
  rw [hdeclarations, show Table.insertAll Lookup.empty.declarations _ = Table.ofPairs _ from rfl,
    Table.find?_ofPairs, hvalues, ← List.getLast?_map, ← hmap, List.getLast?_map]
  rfl

/-- A name has a record iff a declaration of that name was found. -/
theorem Enters.mem_names_iff {inherited : List Gate} {renames : List (String × String)}
    {l : Lookup} (h : c.Enters inherited found renames .empty l) (ident : String) :
    ident ∈ l.declarations.names ↔ ∃ f ∈ found, f.declaration.ident = ident := by
  have hnone : l.declarations.find? ident = none ↔ lastOf ident found = none := by
    have hrecorded := congrArg Option.isNone (h.find?_declarations ident)
    rw [Option.isNone_map, Option.isNone_map] at hrecorded
    rw [← Option.isNone_iff_eq_none, ← Option.isNone_iff_eq_none, hrecorded]
  rw [Table.find?_eq_none_iff, lastOf_eq_none_iff] at hnone
  rw [← not_iff_not, hnone, not_exists]
  simp only [not_and, ne_eq]

/-- What is recorded under a name is the last declaration of that name, apart from its gate. -/
theorem Enters.ungated_find? {inherited : List Gate} {renames : List (String × String)}
    {l : Lookup} (h : c.Enters inherited found renames .empty l) (ident : String) :
    (l.declarations.find? ident).map Declaration.ungated =
      (lastOf ident found).map fun f ↦ f.declaration.ungated := by
  have hrecorded := h.find?_declarations ident
  cases hlast : lastOf ident found with
  | none =>
    rw [hlast, Option.map_none, eq_comm, Option.map_eq_none_iff] at hrecorded
    rw [hrecorded]
    rfl
  | some f =>
    rw [hlast, Option.map_some, eq_comm, Option.map_eq_some_iff] at hrecorded
    obtain ⟨d, hd, hfd⟩ := hrecorded
    rw [hd]
    exact congrArg some (ungated_of_recorded hfd.symm)

/-- What is recorded stands under its own name. -/
theorem Enters.isKeyed {inherited : List Gate} {renames : List (String × String)} {l : Lookup}
    (h : c.Enters inherited found renames .empty l) : l.IsKeyed := by
  have hmap : l.declarations.IsMap := by
    obtain ⟨ds, -, hdeclarations⟩ := h.declarations
    rw [hdeclarations]
    exact Table.isMap_empty.insertAll _
  refine ⟨hmap, fun e he ↦ ?_⟩
  have hfind : l.declarations.find? e.1 = some e.2 := (Table.find?_eq_some_iff hmap).mpr he
  have hrecorded := h.find?_declarations e.1
  rw [hfind, Option.map_some, Option.map_eq_some_iff] at hrecorded
  obtain ⟨f, hlast, hf⟩ := hrecorded
  have hident := (List.mem_filter.mp (List.mem_of_getLast? hlast)).2
  rw [ident_of_recorded hf]
  exact of_decide_eq_true hident

section FileParser

variable [FileParser]

/-! ## Reachable files -/

/-- A file names another as the file of a module. -/
def Imports (c : Crate) (path child : Path) : Prop :=
  ∃ source items i, c.Holds path source items ∧ i ∈ items ∧ c.NamesFile source path i child

/-- The root and the files that reachable files name. -/
def Reachable (c : Crate) (root path : Path) : Prop := ReflTransGen c.Imports root path

/-- One of the items of a file declares a node of the given name. -/
def DeclaredIn (c : Crate) (path : Path) (ident : String) : Prop :=
  ∃ source items i d, c.Holds path source items ∧ i ∈ items ∧ c.Declares source i d ∧
    d.ident = ident

/-! ## One meaning for each item -/

theorem Holds.unique {source' : Source} {items' : List (Attributed Item)}
    (h : c.Holds path source items) (h' : c.Holds path source' items') :
    source = source' ∧ items = items' := by
  have hsource : source = source' := Except.ok.inj (h.1.symm.trans h'.1)
  subst hsource
  exact ⟨rfl, Except.ok.inj (h.2.symm.trans h'.2)⟩

theorem Declares.unique {i : Attributed Item} {d d' : Declaration}
    (h : c.Declares source i d) (h' : c.Declares source i d') : d = d' := by
  cases h with
  | macroCall hbody h =>
    cases h' with
    | macroCall hbody' h' =>
      cases hbody.symm.trans hbody'
      exact Option.some.inj (Except.ok.inj (h.symm.trans h'))
    | struct hbody' => cases hbody.symm.trans hbody'
  | struct hbody _ h =>
    cases h' with
    | macroCall hbody' => cases hbody.symm.trans hbody'
    | struct hbody' _ h' =>
      cases hbody.symm.trans hbody'
      exact Except.ok.inj (h.symm.trans h')

theorem NamesFile.not_declares {i : Attributed Item} {child : Path} {d : Declaration}
    (h : c.NamesFile source path i child) : ¬ c.Declares source i d := by
  intro hdeclares
  rcases hdeclares.body with ⟨call, hbody⟩ | ⟨body, hbody⟩
  · cases h.body.symm.trans hbody
  · cases h.body.symm.trans hbody

/-- From the items of a file on, one list of declarations is found at most. -/
theorem Walk.unique {found' : List Found} (h : c.Walk chain path source items found)
    (h' : c.Walk chain path source items found') : found = found' := by
  induction h generalizing found' with
  | nil =>
    cases h'
    rfl
  | module hnames hholds _ _ ihinner ihrest =>
    cases h' with
    | module hnames' hholds' hinner' hrest' =>
      cases hnames.unique hnames'
      obtain ⟨rfl, rfl⟩ := hholds.unique hholds'
      rw [ihinner hinner', ihrest hrest']
    | declaration hdeclares' => exact absurd hdeclares' hnames.not_declares
    | other hnames' => exact absurd hnames (hnames' _)
  | declaration hdeclares _ ih =>
    cases h' with
    | module hnames' => exact absurd hdeclares hnames'.not_declares
    | declaration hdeclares' hrest' => rw [hdeclares.unique hdeclares', ih hrest']
    | other _ hdeclares' => exact absurd hdeclares (hdeclares' _)
  | other hnames hdeclares _ ih =>
    cases h' with
    | module hnames' => exact absurd hnames' (hnames _)
    | declaration hdeclares' => exact absurd hdeclares' (hdeclares _)
    | other _ _ hrest' => exact ih hrest'

/-! ## From the walk to the files -/

/-- **What is found stands in a reachable file.** -/
theorem Walk.exists_reachable (h : c.Walk chain path source items found)
    {all : List (Attributed Item)} (hholds : c.Holds path source all) (hall : items ⊆ all) :
    ∀ f ∈ found, ∃ q qs, c.Reachable path q ∧ c.Holds q f.source qs ∧ f.item ∈ qs ∧
      c.Declares f.source f.item f.declaration := by
  induction h generalizing all with
  | nil => simp
  | module hnames hinner _ _ ihinner ihrest =>
    obtain ⟨hi, his⟩ := List.cons_subset.mp hall
    intro f hf
    rcases List.mem_append.mp hf with hf | hf
    · obtain ⟨q, qs, hreachable, hq⟩ := ihinner hinner (List.Subset.refl _) f hf
      exact ⟨q, qs, hreachable.head ⟨_, all, _, hholds, hi, hnames⟩, hq⟩
    · exact ihrest hholds his f hf
  | declaration hdeclares _ ih =>
    obtain ⟨hi, his⟩ := List.cons_subset.mp hall
    intro f hf
    rcases List.mem_cons.mp hf with rfl | hf
    · exact ⟨_, all, .refl, hholds, hi, hdeclares⟩
    · exact ih hholds his f hf
  | other _ _ _ ih => exact ih hholds (List.cons_subset.mp hall).2

/-! ## From the files to the walk -/

/-- **What an item gives to the walk**: a walk of the file that it names, or what it declares. -/
theorem Walk.item_cases (h : c.Walk chain path source items found) {i : Attributed Item}
    (hi : i ∈ items) :
    (∃ child source' items' inner, c.NamesFile source path i child ∧
      c.Holds child source' items' ∧ c.Walk (chain ++ [modOf i]) child source' items' inner ∧
        inner ⊆ found) ∨
    (∃ d, c.Declares source i d ∧ ⟨chain, source, i, d⟩ ∈ found) ∨
    ((∀ child, ¬ c.NamesFile source path i child) ∧ ∀ d, ¬ c.Declares source i d) := by
  induction h with
  | nil => cases hi
  | module hnames hholds hinner _ _ ihrest =>
    rcases List.mem_cons.mp hi with rfl | hi
    · exact .inl ⟨_, _, _, _, hnames, hholds, hinner, List.subset_append_left _ _⟩
    · rcases ihrest hi with ⟨child, source', items', inner, hchild, hfile, hwalk, hsubset⟩ |
        ⟨d, hd, hmem⟩ | hother
      · exact .inl ⟨child, source', items', inner, hchild, hfile, hwalk,
          List.Subset.trans hsubset (List.subset_append_right _ _)⟩
      · exact .inr (.inl ⟨d, hd, List.mem_append_right _ hmem⟩)
      · exact .inr (.inr hother)
  | declaration hdeclares _ ih =>
    rcases List.mem_cons.mp hi with rfl | hi
    · exact .inr (.inl ⟨_, hdeclares, List.mem_cons_self⟩)
    · rcases ih hi with ⟨child, source', items', inner, hchild, hfile, hwalk, hsubset⟩ |
        ⟨d, hd, hmem⟩ | hother
      · exact .inl ⟨child, source', items', inner, hchild, hfile, hwalk,
          List.Subset.trans hsubset (List.subset_cons_self _ _)⟩
      · exact .inr (.inl ⟨d, hd, List.mem_cons_of_mem _ hmem⟩)
      · exact .inr (.inr hother)
  | other hnames hdeclares _ ih =>
    rcases List.mem_cons.mp hi with rfl | hi
    · exact .inr (.inr ⟨hnames, hdeclares⟩)
    · exact ih hi

/-- A file that an item names has a walk inside the walk. -/
theorem Walk.exists_walk_of_namesFile (h : c.Walk chain path source items found)
    {i : Attributed Item} (hi : i ∈ items) {child : Path}
    (hchild : c.NamesFile source path i child) :
    ∃ source' items' inner, c.Holds child source' items' ∧
      c.Walk (chain ++ [modOf i]) child source' items' inner ∧ inner ⊆ found := by
  rcases h.item_cases hi with ⟨child', source', items', inner, hnames, hfile⟩ |
    ⟨d, hdeclares, -⟩ | ⟨hnames, -⟩
  · cases hchild.unique hnames
    exact ⟨source', items', inner, hfile⟩
  · exact absurd hdeclares hchild.not_declares
  · exact absurd hchild (hnames child)

/-- What an item of a file declares is found. -/
theorem Walk.mem_of_declares (h : c.Walk chain path source items found) {i : Attributed Item}
    (hi : i ∈ items) {d : Declaration} (hd : c.Declares source i d) :
    ⟨chain, source, i, d⟩ ∈ found := by
  rcases h.item_cases hi with ⟨child, -, -, -, hnames, -⟩ | ⟨d', hdeclares, hmem⟩ |
    ⟨-, hdeclares⟩
  · exact absurd hd hnames.not_declares
  · rwa [hd.unique hdeclares]
  · exact absurd hd (hdeclares d)

/-- **A reachable file has a walk inside the walk.** -/
theorem Walk.exists_walk_of_reachable (h : c.Walk chain path source items found)
    (hholds : c.Holds path source items) {q : Path} (hq : c.Reachable path q) :
    ∃ chain' source' items' found', c.Holds q source' items' ∧
      c.Walk chain' q source' items' found' ∧ found' ⊆ found := by
  induction hq with
  | refl => exact ⟨chain, source, items, found, hholds, h, List.Subset.refl _⟩
  | tail _ himports ih =>
    obtain ⟨chain', source', items', found', hfile, hwalk, hsubset⟩ := ih
    obtain ⟨source'', items'', i, hfile', hi, hnames⟩ := himports
    obtain ⟨rfl, rfl⟩ := hfile.unique hfile'
    obtain ⟨source₁, items₁, found₁, hfile₁, hwalk₁, hsubset₁⟩ :=
      hwalk.exists_walk_of_namesFile hi hnames
    exact ⟨_, source₁, items₁, found₁, hfile₁, hwalk₁, List.Subset.trans hsubset₁ hsubset⟩

/-- **A name is found iff a reachable file declares it.** -/
theorem Walk.exists_found_iff (h : c.Walk chain path source items found)
    (hholds : c.Holds path source items) (ident : String) :
    (∃ f ∈ found, f.declaration.ident = ident) ↔
      ∃ q, c.Reachable path q ∧ c.DeclaredIn q ident := by
  constructor
  · rintro ⟨f, hf, hident⟩
    obtain ⟨q, qs, hreachable, hq, hi, hdeclares⟩ :=
      h.exists_reachable hholds (List.Subset.refl _) f hf
    exact ⟨q, hreachable, f.source, qs, f.item, f.declaration, hq, hi, hdeclares, hident⟩
  · rintro ⟨q, hreachable, source', items', i, d, hq, hi, hdeclares, hident⟩
    obtain ⟨chain₁, source₁, items₁, found₁, hq₁, hwalk, hsubset⟩ :=
      h.exists_walk_of_reachable hholds hreachable
    obtain ⟨rfl, rfl⟩ := hq.unique hq₁
    exact ⟨_, hsubset (hwalk.mem_of_declares hi hdeclares), hident⟩

/-! ## No file includes itself -/

theorem Walk.acc_of_namesFile (h : c.Walk chain path source items found) {i : Attributed Item}
    (hi : i ∈ items) {child : Path} (hchild : c.NamesFile source path i child) :
    Acc (fun child path ↦ c.Imports path child) child := by
  induction h generalizing i child with
  | nil => cases hi
  | module hnames hholds _ _ ihinner ihrest =>
    rcases List.mem_cons.mp hi with rfl | hi
    · cases hchild.unique hnames
      refine ⟨_, fun grandchild ⟨source', items', j, hholds', hj, hgrandchild⟩ ↦ ?_⟩
      obtain ⟨rfl, rfl⟩ := hholds.unique hholds'
      exact ihinner hj hgrandchild
    · exact ihrest hi hchild
  | declaration hdeclares _ ih =>
    rcases List.mem_cons.mp hi with rfl | hi
    · exact absurd hdeclares hchild.not_declares
    · exact ih hi hchild
  | other hnames _ _ ih =>
    rcases List.mem_cons.mp hi with rfl | hi
    · exact absurd hchild (hnames child)
    · exact ih hi hchild

/-- A file that has a walk does not include itself, through however many other files. -/
theorem Walk.acc (h : c.Walk chain path source items found)
    (hholds : c.Holds path source items) : Acc (fun child path ↦ c.Imports path child) path := by
  refine ⟨_, fun child ⟨source', items', i, hholds', hi, hchild⟩ ↦ ?_⟩
  obtain ⟨rfl, rfl⟩ := hholds.unique hholds'
  exact h.acc_of_namesFile hi hchild

/-! ## What is recorded -/

/-- **What a crawl that succeeds has found.**  It recorded the names that reachable files declare,
under each the last declaration in depth-first order, apart from its gate, and as aliases the
renames of the public imports of the root file, of which the later hold. -/
theorem crawl_finds {root : Path} {l : Lookup} (h : (c.crawl root).result = .ok l) :
    ∃ source items found, c.Holds root source items ∧ c.Walk [] root source items found ∧
      (∀ ident, ident ∈ l.declarations.names ↔
        ∃ path, c.Reachable root path ∧ c.DeclaredIn path ident) ∧
      (∀ ident, (l.declarations.find? ident).map Declaration.ungated =
        (lastOf ident found).map fun f ↦ f.declaration.ungated) ∧
      ∀ name, l.aliases.find? name =
        (Table.valuesOf name (items.flatMap renamesOf)).getLast? := by
  obtain ⟨source, items, found, hholds, hwalk, henters⟩ := walk_of_crawl h
  refine ⟨source, items, found, hholds, hwalk, fun ident ↦ ?_, fun ident ↦ ?_, fun name ↦ ?_⟩
  · rw [henters.mem_names_iff, hwalk.exists_found_iff hholds]
  · exact henters.ungated_find? ident
  · rw [henters.aliases name]
    exact Option.or_none

end FileParser

/-- A crate whose module is read from a file of another name, and declares one node twice. -/
def sample : Crate where
  tree :=
    { files := [
        (["lib.rs"], Text.bytesOf ("#[cfg(any(feature = \"full\", feature = \"fold\"))]\n" ++
          "#[path = \"d/n.rs\"]\nmod n;\npub use n::Lit as Num;\n")),
        (["d", "n.rs"], Text.bytesOf ("ast_struct! \x7b pub struct Lit \x7b \x7d \x7d\n" ++
          "#[cfg(feature = \"full\")]\nast_struct! \x7b pub struct Lit #full; \x7d"))]
      directories := [["d"]] }
  directory := ⟨true, []⟩
  settings := .default

/-- The root file of `sample`. -/
def sampleRoot : Path := ⟨false, ["lib.rs"]⟩

/-- What `sample` holds. -/
def sampleLookup : Lookup where
  declarations := ⟨[("Lit", ⟨"Lit", .struct [], ⟨["full"]⟩⟩)]⟩
  aliases := ⟨[("Num", "Lit")]⟩

theorem crawl_sample : (sample.crawl sampleRoot).result = .ok sampleLookup := by decide +kernel

theorem crawl_finds_sample : (sample.crawl sampleRoot).result = .ok sampleLookup ∧
    (∃ path, sample.Reachable sampleRoot path ∧ sample.DeclaredIn path "Lit") ∧
      sampleLookup.aliases.find? "Num" = some "Lit" := by
  obtain ⟨-, -, -, -, -, hnames, -⟩ := crawl_finds crawl_sample
  exact ⟨crawl_sample, (hnames "Lit").mp (by decide), by decide⟩

end Crate
end NodeSchema
