import NodeSchema.Proofs.Crawl.Declarations
import NodeSchema.Proofs.Crawl.Order

/-!
# Gates are read late

A crawl keeps the `cfg` attributes of modules as they are written, and reads them when a declaration
is recorded below.  Two statements say what this does.

* It refines the crawl that reads them at once (`crawlEagerly`): what that crawl gives, the crawl
  gives too (`result_load_of_eagerly`).  Its gates always come to the predicate that the other crawl
  hands down.
* It cannot be observed otherwise: the `cfg` attributes of a `mod` declaration may be replaced by
  any others if nothing is declared below that they gate (`IsQuiet`), or if the feature of the
  module is forced.  Then the gates above a file come to the same in both crates, or the file is
  quiet (`alike_finds_of_regates`).

`crawl_deferred` puts both together.  No crate has to be assumed not to include itself, since both
crawls of a pair stop at the same depth.
-/

set_option autoImplicit false

namespace NodeSchema

open Rust

namespace Crate

/-! ## Reading gates at once -/

/-- The predicate below a `mod` declaration: the feature that is forced, or what its attributes say
merged into what is inherited. -/
def moduleFeatures (s : CrawlSettings) (inherited : Features) (name : String)
    (attributes : List Attribute) : Except Failure Features :=
  match s.forced.find? name with
  | some feature => .ok (.ofList [feature])
  | none => do
    let features ← Cfg.ofAttributes attributes
    inherited.merge? features

variable {gates gates' : List Gate}

/-- What gates come to below a `mod` declaration is what is handed down at once. -/
theorem resolve_moduleGates {s : CrawlSettings} {inherited : Features} {name : String}
    {attributes : List Attribute} (h : Gate.resolve gates = .ok inherited) :
    Gate.resolve (moduleGates s gates name attributes) =
      moduleFeatures s inherited name attributes := by
  rw [moduleFeatures]
  cases hforced : s.forced.find? name with
  | some feature => rw [moduleGates_of_forced hforced, Gate.resolve_ofFeatures]
  | none =>
    rw [moduleGates_of_free hforced, Gate.resolve_add, h]
    rfl

theorem record_congr (l : Lookup) (d : Declaration) (h : Gate.resolve gates = Gate.resolve gates') :
    record l d gates = record l d gates' := by
  rw [record, record, h]

/-- The attributes that gate nothing. -/
def otherAttributes (attributes : List Attribute) : List Attribute :=
  attributes.filter fun a ↦ a.name ≠ "cfg"

theorem moduleFile_otherAttributes (source : Source) (name : String) (as : List Attribute) :
    moduleFile source name (otherAttributes as) = moduleFile source name as := by
  have hfind : (otherAttributes as).find? (fun a ↦ a.name = "path") =
      as.find? fun a ↦ a.name = "path" := by
    rw [otherAttributes, List.find?_filter]
    congr 1
    funext a
    by_cases hname : a.name = "path"
    · simp [hname]
    · simp [hname]
  rw [moduleFile, moduleFile, Attribute.path, Attribute.path, hfind]

section FileParser

variable [FileParser]

/-- Visits one item of a file under a predicate, and reads the attributes of a module before its
file is loaded. -/
def visitEagerly (c : Crate) (load : Path → Features → Lookup → Logged Lookup) (source : Source)
    (path : Path) (inherited : Features) (isRoot : Bool) (l : Lookup) (i : Attributed Item) :
    Logged Lookup :=
  match i.item.body with
  | .module false => do
    let name := nameOf i
    if c.settings.ignored.contains name then
      Logged.tell (.moduleSkipped name)
      pure l
    else
      let features ← Logged.ofExcept (moduleFeatures c.settings inherited name i.attributes)
      let file ← Logged.ofExcept (moduleFile source name i.attributes)
      load (path.parent.join (.ofString file)) features l
  -- No other item loads a file.
  | _ => c.visit (fun _ _ l => pure l) source path (Gate.ofFeatures inherited) isRoot l i

/-- Visits items one after the other under a predicate. -/
def visitAllEagerly (c : Crate) (load : Path → Features → Lookup → Logged Lookup)
    (source : Source) (path : Path) (inherited : Features) (isRoot : Bool) :
    Lookup → List (Attributed Item) → Logged Lookup
  | l, [] => pure l
  | l, i :: is => do
    let l ← c.visitEagerly load source path inherited isRoot l i
    c.visitAllEagerly load source path inherited isRoot l is

/-- Loads a file and the modules it names under a predicate, at most `fuel` files deep. -/
def loadEagerly (c : Crate) : Nat → Bool → Path → Features → Lookup → Logged Lookup
  | 0, _, _, _, _ => Logged.fail (.unreported .endless)
  | fuel + 1, isRoot, path, inherited, l => do
    Logged.tell (.moduleLoading path.toString)
    let source ← Logged.ofExcept (c.source path)
    let items ← Logged.ofExcept source.items
    c.visitAllEagerly (c.loadEagerly fuel false) source path inherited isRoot l items

/-- Crawls a crate from its root file, and reads the attributes of every module at once. -/
def crawlEagerly (c : Crate) (root : Path) : Logged Lookup := do
  let l ← c.loadEagerly c.maxDepth true root .always .empty
  Logged.tell (.collected l.declarations.size l.aliases.size)
  pure l

/-- Crawls a module by itself under a predicate, and reads the attributes of every module at
once. -/
def crawlModuleEagerly (c : Crate) (path : Path) (inherited : Features) : Logged Lookup :=
  c.loadEagerly c.maxDepth false path inherited .empty

section Eagerly

variable {c : Crate} {source : Source} {path : Path} {isRoot : Bool}
  {inherited : Features} {l l' : Lookup}

/-- An item that loads no file is recorded under what the gates come to. -/
theorem visit_eq_of_resolve_eq {load load' : Loader} {i : Attributed Item}
    (hmodule : i.item.body ≠ .module false) (h : Gate.resolve gates = Gate.resolve gates') :
    c.visit load source path gates isRoot l i = c.visit load' source path gates' isRoot l i := by
  rw [visit, visit]
  cases hbody : i.item.body with
  | module isInline =>
    cases isInline with
    | false => exact absurd hbody hmodule
    | true => rfl
  | macroCall call =>
    dsimp only
    refine congrArg _ (funext fun recognized ↦ ?_)
    cases recognized with
    | none => rfl
    | some d => exact record_congr l d (Gate.resolve_add_congr h rfl)
  | struct body =>
    dsimp only
    split
    · exact congrArg _ (funext fun d ↦ record_congr l d h)
    · rfl
  | use _ | enum _ | expression _ | typeAlias _ | plain _ => rfl

/-- One item, if the files below it are loaded alike. -/
theorem result_visit_of_eagerly {load : Loader}
    {loadEagerly : Path → Features → Lookup → Logged Lookup}
    (hload : ∀ child gates inherited l l', Gate.resolve gates = .ok inherited →
      (loadEagerly child inherited l).result = .ok l' → (load child gates l).result = .ok l')
    {i : Attributed Item} (hgates : Gate.resolve gates = .ok inherited)
    (h : (c.visitEagerly loadEagerly source path inherited isRoot l i).result = .ok l') :
    (c.visit load source path gates isRoot l i).result = .ok l' := by
  by_cases hmodule : i.item.body = .module false
  · rw [visitEagerly, hmodule] at h
    rw [visit, hmodule]
    dsimp only at h ⊢
    rw [nameOf] at h
    split at h
    · next hignored =>
      rw [if_pos hignored]
      exact h
    · next hignored =>
      obtain ⟨features, hfeatures, h⟩ := Logged.result_bind_eq_ok.mp h
      obtain ⟨file, hfile, h⟩ := Logged.result_bind_eq_ok.mp h
      rw [if_neg hignored]
      refine Logged.result_bind_eq_ok.mpr ⟨file, hfile, hload _ _ features l l' ?_ h⟩
      rw [resolve_moduleGates hgates]
      exact hfeatures
  · have hother : c.visitEagerly loadEagerly source path inherited isRoot l i =
        c.visit (fun _ _ l ↦ pure l) source path (Gate.ofFeatures inherited) isRoot l i := by
      rw [visitEagerly]
      split
      · next hbody => exact absurd hbody hmodule
      · rfl
    rw [hother] at h
    rw [visit_eq_of_resolve_eq hmodule (hgates.trans (Gate.resolve_ofFeatures inherited).symm)]
    exact h

theorem result_visitAll_of_eagerly {load : Loader}
    {loadEagerly : Path → Features → Lookup → Logged Lookup}
    (hload : ∀ child gates inherited l l', Gate.resolve gates = .ok inherited →
      (loadEagerly child inherited l).result = .ok l' → (load child gates l).result = .ok l')
    {items : List (Attributed Item)} (hgates : Gate.resolve gates = .ok inherited)
    (h : (c.visitAllEagerly loadEagerly source path inherited isRoot l items).result = .ok l') :
    (c.visitAll load source path gates isRoot l items).result = .ok l' := by
  induction items generalizing l with
  | nil => exact h
  | cons i is ih =>
    obtain ⟨l₁, hvisit, hrest⟩ := Logged.result_bind_eq_ok.mp h
    exact Logged.result_bind_eq_ok.mpr
      ⟨l₁, result_visit_of_eagerly hload hgates hvisit, ih hrest⟩

/-- **What is found with gates that are read at once is found with gates that are read late**, if
these come to the predicate that was read. -/
theorem result_load_of_eagerly {fuel : Nat} (hgates : Gate.resolve gates = .ok inherited)
    (h : (c.loadEagerly fuel isRoot path inherited l).result = .ok l') :
    (c.load fuel isRoot path gates l).result = .ok l' := by
  induction fuel generalizing isRoot path gates inherited l l' with
  | zero => cases h
  | succ fuel ih =>
    obtain ⟨-, -, h⟩ := Logged.result_bind_eq_ok.mp h
    obtain ⟨source, hsource, h⟩ := Logged.result_bind_eq_ok.mp h
    obtain ⟨items, hitems, h⟩ := Logged.result_bind_eq_ok.mp h
    have hload (child : Path) (gates : List Gate) (inherited : Features) (l l' : Lookup)
        (hgates : Gate.resolve gates = .ok inherited)
        (h : (c.loadEagerly fuel false child inherited l).result = .ok l') :
        (c.load fuel false child gates l).result = .ok l' := ih hgates h
    have hrest := result_visitAll_of_eagerly hload hgates h
    exact Logged.result_bind_eq_ok.mpr ⟨(), rfl, Logged.result_bind_eq_ok.mpr
      ⟨source, hsource, Logged.result_bind_eq_ok.mpr ⟨items, hitems, hrest⟩⟩⟩

end Eagerly

/-! ## Files that declare nothing -/

/-- A file names another as the file of a module whose feature is not forced. -/
def FreelyImports (c : Crate) (path child : Path) : Prop :=
  ∃ source items i, c.Holds path source items ∧ i ∈ items ∧ c.NamesFile source path i child ∧
    c.settings.forced.find? (nameOf i) = none

/-- Nothing is declared in a file or below, unless it is below a module whose feature is forced. -/
def IsQuiet (c : Crate) (path : Path) : Prop :=
  ∀ p, Relation.ReflTransGen c.FreelyImports path p → ∀ source items i d,
    c.Holds p source items → i ∈ items → ¬ c.Declares source i d

theorem IsQuiet.of_freelyImports {c : Crate} {path child : Path} (h : c.IsQuiet path)
    (himports : c.FreelyImports path child) : c.IsQuiet child :=
  fun p hp ↦ h p (hp.head himports)

/-! ## Other attributes -/

/-- Two items are the same module apart from their places and from the `cfg` attributes on them. -/
structure SameModule (i i' : Attributed Item) : Prop where
  isModule : ∃ isInline, i.item.body = .module isInline
  item : i.item.unplaced = i'.item.unplaced
  others : (otherAttributes i.attributes).map Attribute.unplaced =
    (otherAttributes i'.attributes).map Attribute.unplaced

/-- Two texts hold the same items, of which some modules have other `cfg` attributes. -/
def RegatesSource (changed : Source → Attributed Item → Prop) (source source' : Source) : Prop :=
  ∃ items items', source.items = .ok items ∧ source'.items = .ok items' ∧
    List.Forall₂ (fun i i' ↦ SameItem source source' i i' ∨ changed source i ∧ SameModule i i')
      items items'

/-- A crate with other `cfg` attributes on some `mod` declarations.  Each of these is of a module
whose feature is forced, or nothing is declared below that its attributes gate. -/
structure Regates (changed : Source → Attributed Item → Prop) (c : Crate) (root : Path)
    (c' : Crate) : Prop where
  tree : c.tree.Matches (fun bytes bytes' ↦ bytes = bytes' ∨
    ∀ path, RegatesSource changed ⟨path, bytes⟩ ⟨path, bytes'⟩) c'.tree
  directory : c.directory = c'.directory
  settings : c.settings = c'.settings
  quiet : ∀ path child source items i, c.Reachable root path → c.Holds path source items →
    i ∈ items → changed source i → c.NamesFile source path i child →
      (∃ feature, c.settings.forced.find? (nameOf i) = some feature) ∨ c.IsQuiet child

section Regates

variable {changed : Source → Attributed Item → Prop} {c c' : Crate} {root path : Path}
  {source source' : Source} {i i' : Attributed Item} {gates gates' : List Gate}

theorem SameModule.actsAlike (h : SameModule i i') : ActsAlike source source' i i' := by
  obtain ⟨isInline, hbody⟩ := h.isModule
  refine ⟨h.item, fun name ↦ ?_, fun call _ hcall ↦ ?_⟩
  · rw [← moduleFile_otherAttributes, ← moduleFile_otherAttributes source' name]
    exact alike_moduleFile name h.others
  · cases hbody.symm.trans hcall

theorem SameModule.not_declares (h : SameModule i i') (d : Declaration) :
    ¬ c.Declares source i d := by
  obtain ⟨isInline, hbody⟩ := h.isModule
  intro hdeclares
  rcases hdeclares.body with ⟨call, hcall⟩ | ⟨body, hstruct⟩
  · cases hbody.symm.trans hcall
  · cases hbody.symm.trans hstruct

/-- The file of a path is the same in both crates, or holds modules with other gates. -/
theorem alike_source_of_regates (h : c.Regates changed root c') (path : Path) :
    Alike (fun source source' ↦ source = source' ∨ RegatesSource changed source source')
      (c.source path) (c'.source path) := by
  refine (alike_source_of_matches h.tree h.directory path).mono fun source source' hs ↦ ?_
  obtain ⟨name, bytes⟩ := source
  obtain ⟨name', bytes'⟩ := source'
  obtain ⟨rfl, hbytes⟩ := hs
  exact hbytes.imp (congrArg _) fun hitems ↦ hitems name

theorem alike_items_of_regates (h : source = source' ∨ RegatesSource changed source source') :
    Alike (List.Forall₂ fun i i' ↦ Agree source source' i i' ∨ changed source i ∧ SameModule i i')
      source.items source'.items := by
  rcases h with rfl | ⟨items, items', hitems, hitems', hsame⟩
  · exact .of_eq (fun items ↦ List.forall₂_same.mpr fun i _ ↦ .inl (.refl source i)) rfl
  · rw [hitems, hitems']
    exact .ok (hsame.imp fun _ _ ↦ Or.imp Agree.of_sameItem id)

/-- **One item of two crates**: it gives the same if the gates above it come to the same, or if the
file is quiet. -/
theorem alike_reads_of_regates (h : c.Regates changed root c') {items : List (Attributed Item)}
    (hreachable : c.Reachable root path) (hholds : c.Holds path source items) (hi : i ∈ items)
    (hsame : Agree source source' i i' ∨ changed source i ∧ SameModule i i')
    (hgates : Gate.resolve gates = Gate.resolve gates' ∨ c.IsQuiet path)
    {find find' : Path → List Gate → Except Failure Findings}
    (hfind : ∀ child gates gates', c.Imports path child →
      (Gate.resolve gates = Gate.resolve gates' ∨ c.IsQuiet child) →
        Alike Eq (find child gates) (find' child gates'))
    (isRoot : Bool) :
    Alike Eq (c.reads find source path gates isRoot i)
      (c'.reads find' source' path gates' isRoot i') := by
  have hacts : ActsAlike source source' i i' := hsame.elim Agree.actsAlike fun h ↦ h.2.actsAlike
  have hname : nameOf i = nameOf i' := congrArg (fun i ↦ i.name.getD "") hacts.item
  refine alike_reads (fun _ ↦ rfl) h.settings hacts (fun child hchild ↦ ?_) fun d hd ↦ ?_
  · refine hfind child _ _ ⟨source, items, i, hholds, hi, hchild⟩ ?_
    rw [← h.settings, ← hname]
    cases hforced : c.settings.forced.find? (nameOf i) with
    | some feature =>
      left
      rw [moduleGates_of_forced hforced, moduleGates_of_forced hforced]
    | none =>
      rcases hsame with hagree | ⟨hchanged, -⟩
      · refine hgates.imp (fun hgates ↦ ?_) fun hquiet ↦ ?_
        · exact resolve_moduleGates_congr _ _ hgates hagree.ofAttributes_eq
        · exact hquiet.of_freelyImports ⟨source, items, i, hholds, hi, hchild, hforced⟩
      · right
        refine (h.quiet path child source items i hreachable hholds hi hchanged hchild).resolve_left
          ?_
        rintro ⟨feature, hsome⟩
        exact absurd (hsome.symm.trans hforced) (Option.some_ne_none feature)
  · rcases hgates with hgates | hquiet
    · rcases hsame with hagree | ⟨-, hmodule⟩
      · exact Gate.resolve_add_congr hgates hagree.ofAttributes_gatingAttributes_eq
      · exact absurd hd (hmodule.not_declares d)
    · exact absurd hd (hquiet path .refl source items i d hholds hi)

/-- **The files of both crates give the same**, as far down as they are loaded: the gates above a
file come to the same in both, or it is quiet. -/
theorem alike_finds_of_regates (h : c.Regates changed root c') (fuel : Nat) (isRoot : Bool)
    (hreachable : c.Reachable root path)
    (hgates : Gate.resolve gates = Gate.resolve gates' ∨ c.IsQuiet path) :
    Alike Eq (c.finds fuel isRoot path gates) (c'.finds fuel isRoot path gates') := by
  induction fuel generalizing isRoot path gates gates' with
  | zero => exact .error
  | succ fuel ih =>
    rw [finds, finds]
    refine (alike_source_of_regates h path).bind_of_eq fun source source' hread _ hsource ↦ ?_
    refine (alike_items_of_regates hsource).bind_of_eq fun items items' hitems _ hsame ↦ ?_
    refine (Alike.mapM (S := Eq) ?_).map fun fs gs hfound ↦ ?_
    · refine List.forall₂_iff_zip.mpr ⟨hsame.length_eq, fun {i i'} hzip ↦ ?_⟩
      refine alike_reads_of_regates h hreachable ⟨hread, hitems⟩ (List.of_mem_zip hzip).1
        (List.forall₂_iff_zip.mp hsame |>.2 hzip) hgates (fun child _ _ himports ↦ ?_) isRoot
      exact ih false (hreachable.tail himports)
    · rw [List.forall₂_eq_eq_eq] at hfound
      rw [hfound]

theorem maxDepth_eq_of_regates (h : c.Regates changed root c') : c.maxDepth = c'.maxDepth := by
  rw [maxDepth, maxDepth, h.tree.files.length_eq]

theorem result_load_of_regates (h : c.Regates changed root c') (isRoot : Bool) (gates : List Gate)
    (l l' : Lookup) : (c.load c.maxDepth isRoot root gates l).result = .ok l' ↔
      (c'.load c'.maxDepth isRoot root gates l).result = .ok l' := by
  rw [result_load, result_load, ← maxDepth_eq_of_regates h, map_eq_ok, map_eq_ok]
  have hfinds : Alike Eq (c.finds c.maxDepth isRoot root gates)
      (c'.finds c.maxDepth isRoot root gates) :=
    alike_finds_of_regates h c.maxDepth isRoot .refl (.inl rfl)
  constructor
  · rintro ⟨f, hf, rfl⟩
    obtain ⟨f', hf', rfl⟩ := hfinds.exists_of_eq_ok hf
    exact ⟨f, hf', rfl⟩
  · rintro ⟨f, hf, rfl⟩
    obtain ⟨f', hf', rfl⟩ := hfinds.symm.exists_of_eq_ok hf
    exact ⟨_, hf', rfl⟩

end Regates

/-- **Gates that are read late refine gates that are read at once, and cannot be told from them
otherwise.**  What a crawl finds that reads the `cfg` attributes of every module at once, the crawl
finds.  And with any other `cfg` attributes on a `mod` declaration below which they gate nothing, it
finds the same, or fails as before. -/
theorem crawl_deferred (c : Crate) (path : Path) :
    (∀ l, (c.crawlEagerly path).result = .ok l → (c.crawl path).result = .ok l) ∧
    (∀ inherited l, (c.crawlModuleEagerly path inherited).result = .ok l →
      (c.crawlModule path inherited).result = .ok l) ∧
    ∀ changed c', c.Regates changed path c' →
      (∀ l, (c.crawl path).result = .ok l ↔ (c'.crawl path).result = .ok l) ∧
      ∀ inherited l, (c.crawlModule path inherited).result = .ok l ↔
        (c'.crawlModule path inherited).result = .ok l := by
  refine ⟨fun l h ↦ ?_, fun inherited l h ↦ ?_, fun changed c' h ↦
    ⟨fun l ↦ ?_, fun inherited l ↦ result_load_of_regates h false _ _ l⟩⟩
  · obtain ⟨l', hload, h⟩ := Logged.result_bind_eq_ok.mp h
    exact Logged.result_bind_eq_ok.mpr ⟨l', result_load_of_eagerly rfl hload, h⟩
  · exact result_load_of_eagerly (Gate.resolve_ofFeatures inherited) h
  · have hload (c : Crate) : (c.crawl path).result = .ok l ↔
        (c.load c.maxDepth true path [] .empty).result = .ok l := by
      rw [crawl, Logged.result_bind_eq_ok]
      constructor
      · rintro ⟨l', hload, h⟩
        obtain rfl : l' = l := Except.ok.inj h
        exact hload
      · exact fun h ↦ ⟨l, h, rfl⟩
    rw [hload, hload]
    exact result_load_of_regates h true [] .empty l

/-- A file without modules imports nothing. -/
theorem not_imports_of_kind {c : Crate} {path child : Path} {source : Source}
    {items : List (Attributed Item)} (hholds : c.Holds path source items)
    (hkinds : ∀ i ∈ items, i.item.kind ≠ .module) : ¬ c.Imports path child := by
  rintro ⟨source', items', i, hholds', hi, hnames⟩
  obtain ⟨rfl, rfl⟩ := hholds.unique hholds'
  exact hkinds i hi (by rw [Item.kind, hnames.body]; rfl)

end FileParser

/-! ### A module that declares nothing -/

/-- A crate of two modules: nothing is declared in the first, whatever gates it, and a struct in the
second. -/
def gatedBy (attributes : String) : Crate where
  tree :=
    { files := [(["lib.rs"], Text.bytesOf (attributes ++ "mod a;mod b;")),
        (["a.rs"], Text.bytesOf "impl Lit\x7b\x7d"), (["b.rs"], Text.bytesOf callText)]
      directories := [] }
  directory := ⟨true, []⟩
  settings := .default

/-- A `cfg` attribute that gates by a feature. -/
def fullText : String := "#[cfg(feature=\"full\")]"

/-- A `cfg` attribute that no declaration can have. -/
def notText : String := "#[cfg(not(test))]"

/-- A module apart from its attributes. -/
def moduleItem (name : String) : Item :=
  ⟨.module false, some name, false, "mod " ++ name ++ ";", 0⟩

theorem nameOf_of_unplaced {i : Attributed Item} {name : String}
    (h : i.item.unplaced = moduleItem name) : nameOf i = name :=
  congrArg (fun i ↦ i.name.getD "") h

theorem body_of_unplaced {i : Attributed Item} {name : String}
    (h : i.item.unplaced = moduleItem name) : i.item.body = .module false := by
  have hbody : i.item.body.unplaced = .module false := congrArg (fun i ↦ i.body) h
  generalize i.item.body = b at hbody
  cases b with
  | module isInline => exact hbody
  | struct | enum | use | macroCall | expression | typeAlias | plain => cases hbody

theorem exists_items {α : Type} {bytes : List UInt8} {f : Attributed Item → α} {as : List α}
    (h : ((trees? bytes >>= entriesOf).map itemsOf).map (List.map f) = some as) :
    ∃ items, (∀ path, Source.items ⟨path, bytes⟩ = .ok items) ∧ items.map f = as := by
  obtain ⟨items, hitems, rfl⟩ := Option.map_eq_some_iff.mp h
  exact ⟨items, fun path ↦ items_eq_ok hitems, rfl⟩

/-- The root file holds the two modules, of which the first alone has an attribute, a `cfg`. -/
structure HoldsModules (attributes : String) (i j : Attributed Item) : Prop where
  items : ∀ path,
    Source.items ⟨path, Text.bytesOf (attributes ++ "mod a;mod b;")⟩ = .ok [i, j]
  first : i.item.unplaced = moduleItem "a"
  gated : otherAttributes i.attributes = []
  second : j.item.unplaced = moduleItem "b"
  plain : j.attributes = []

theorem exists_holdsModules {attributes : String}
    (h : ((trees? (Text.bytesOf (attributes ++ "mod a;mod b;")) >>= entriesOf).map itemsOf).map
      (List.map fun i ↦ (i.item.unplaced, i.attributes.map Attribute.name)) =
        some [(moduleItem "a", ["cfg"]), (moduleItem "b", [])]) :
    ∃ i j, HoldsModules attributes i j := by
  obtain ⟨items, hitems, hmap⟩ := exists_items h
  obtain ⟨i, is, rfl, hi, his⟩ := List.map_eq_cons_iff.mp hmap
  obtain ⟨j, js, rfl, hj, hjs⟩ := List.map_eq_cons_iff.mp his
  rw [List.map_eq_nil_iff] at hjs
  subst hjs
  obtain ⟨hi, hinames⟩ := Prod.mk.inj hi
  obtain ⟨hj, hjnames⟩ := Prod.mk.inj hj
  refine ⟨i, j, hitems, hi, List.filter_eq_nil_iff.mpr fun a ha ↦ ?_, hj,
    List.map_eq_nil_iff.mp hjnames⟩
  have hname : a.name ∈ i.attributes.map Attribute.name := List.mem_map_of_mem ha
  rw [hinames, List.mem_singleton] at hname
  simp [hname]

theorem child_of_namesFile {c : Crate} {path child : Path} {source : Source} {i : Attributed Item}
    {name : String} (hitem : i.item.unplaced = moduleItem name)
    (hothers : otherAttributes i.attributes = []) (h : c.NamesFile source path i child) :
    child = path.parent.join (.ofString (name ++ ".rs")) := by
  obtain ⟨-, -, file, hfile, rfl⟩ := h
  rw [nameOf_of_unplaced hitem, ← moduleFile_otherAttributes, hothers] at hfile
  cases hfile
  rfl

/-- The files of the crate, and what imports what. -/
theorem reachable_gatedBy {attributes : String} {i j : Attributed Item}
    (h : HoldsModules attributes i j) {path : Path}
    (hpath : (gatedBy attributes).Reachable ⟨false, ["lib.rs"]⟩ path) :
    path = ⟨false, ["lib.rs"]⟩ ∨ ∃ source items, (gatedBy attributes).Holds path source items ∧
      ∀ i ∈ items, i.item.kind ≠ .module := by
  have hroot : (gatedBy attributes).Holds ⟨false, ["lib.rs"]⟩
      ⟨"lib.rs", Text.bytesOf (attributes ++ "mod a;mod b;")⟩ [i, j] := ⟨rfl, h.items _⟩
  have hleaf {child : Path} {source : Source} (kinds : List ItemKind)
      (hread : (gatedBy attributes).source child = .ok source)
      (hkinds : ((trees? source.bytes >>= entriesOf).map itemsOf).map
        (List.map fun i ↦ i.item.kind) = some kinds) (hmodule : .module ∉ kinds) :
      ∃ source items, (gatedBy attributes).Holds child source items ∧
        ∀ i ∈ items, i.item.kind ≠ .module := by
    obtain ⟨items, hitems, rfl⟩ := exists_items hkinds
    refine ⟨source, items, ⟨hread, hitems _⟩, fun i hi hkind ↦ hmodule ?_⟩
    exact List.mem_map.mpr ⟨i, hi, hkind⟩
  rcases Relation.ReflTransGen.cases_head hpath with rfl | ⟨child, himports, hrest⟩
  · exact .inl rfl
  · -- The two modules import nothing.
    have hchild : ∃ source items, (gatedBy attributes).Holds child source items ∧
        ∀ i ∈ items, i.item.kind ≠ .module := by
      obtain ⟨source, items, k, hholds, hk, hnames⟩ := himports
      obtain ⟨-, rfl⟩ := hroot.unique hholds
      rcases List.mem_cons.mp hk with rfl | hk
      · rw [child_of_namesFile h.first h.gated hnames]
        exact hleaf [.implementation] rfl (by decide +kernel) (by decide)
      · rw [List.mem_singleton] at hk
        subst hk
        rw [child_of_namesFile h.second (by rw [h.plain]; rfl) hnames]
        exact hleaf [.macroCall] rfl (by decide +kernel) (by decide)
    rcases Relation.ReflTransGen.cases_head hrest with rfl | ⟨_, himports, -⟩
    · exact .inr hchild
    · obtain ⟨source, items, hholds, hkinds⟩ := hchild
      exact absurd himports (not_imports_of_kind hholds hkinds)

/-- Nothing is declared in the first module. -/
theorem isQuiet_gatedBy (attributes : String) : (gatedBy attributes).IsQuiet ⟨false, ["a.rs"]⟩ := by
  obtain ⟨items, hitems, hkinds⟩ : ∃ items,
      (∀ path, Source.items ⟨path, Text.bytesOf "impl Lit\x7b\x7d"⟩ = .ok items) ∧
        items.map (fun i ↦ i.item.kind) = [.implementation] := exists_items (by decide +kernel)
  have hholds : (gatedBy attributes).Holds ⟨false, ["a.rs"]⟩
      ⟨"a.rs", Text.bytesOf "impl Lit\x7b\x7d"⟩ items := ⟨rfl, hitems _⟩
  have hkind (i : Attributed Item) (hi : i ∈ items) : i.item.kind = .implementation :=
    List.mem_singleton.mp (hkinds ▸ List.mem_map.mpr ⟨i, hi, rfl⟩)
  intro p hp source' items' i d hholds' hi hdeclares
  rcases Relation.ReflTransGen.cases_head hp with rfl | ⟨child, hfreely, -⟩
  · obtain ⟨-, rfl⟩ := hholds.unique hholds'
    have hkind := hkind i hi
    rw [Item.kind] at hkind
    rcases hdeclares.body with ⟨call, hbody⟩ | ⟨body, hbody⟩
    · rw [hbody] at hkind
      cases hkind
    · rw [hbody] at hkind
      cases hkind
  · obtain ⟨source, items', i, hholds', hi, hnames, -⟩ := hfreely
    exact not_imports_of_kind hholds (fun i hi ↦ by rw [hkind i hi]; decide)
      ⟨source, items', i, hholds', hi, hnames⟩

theorem regates_gatedBy : (gatedBy fullText).Regates (fun _ i ↦ nameOf i = "a")
    ⟨false, ["lib.rs"]⟩ (gatedBy notText) := by
  obtain ⟨i, j, h⟩ : ∃ i j, HoldsModules fullText i j := exists_holdsModules (by decide +kernel)
  obtain ⟨i', j', h'⟩ : ∃ i j, HoldsModules notText i j := exists_holdsModules (by decide +kernel)
  have hfirst : SameModule i i' :=
    ⟨⟨false, body_of_unplaced h.first⟩, h.first.trans h'.first.symm, by rw [h.gated, h'.gated]⟩
  have hsecond (source source' : Source) : SameItem source source' j j' := by
    refine ⟨?_, fun call _ hcall ↦ ?_⟩
    · rw [Attributed.unplaced, h.second, h.plain, Attributed.unplaced, h'.second, h'.plain]
    · cases (body_of_unplaced h.second).symm.trans hcall
  refine ⟨⟨rfl, .cons ⟨rfl, .inr fun path ↦ ⟨_, _, h.items path, h'.items path,
    .cons (.inr ⟨nameOf_of_unplaced h.first, hfirst⟩) (.cons (.inl (hsecond _ _)) .nil)⟩⟩
      (.cons ⟨rfl, .inl rfl⟩ (.cons ⟨rfl, .inl rfl⟩ .nil))⟩, rfl, rfl,
    fun path child source items k hreachable hholds hk hchanged hnames ↦ .inr ?_⟩
  rcases reachable_gatedBy h hreachable with rfl | ⟨_, _, hholds', hkinds⟩
  · have hroot : (gatedBy fullText).Holds ⟨false, ["lib.rs"]⟩
        ⟨"lib.rs", Text.bytesOf (fullText ++ "mod a;mod b;")⟩ [i, j] := ⟨rfl, h.items _⟩
    obtain ⟨-, rfl⟩ := hroot.unique hholds
    rcases List.mem_cons.mp hk with rfl | hk
    · rw [child_of_namesFile h.first h.gated hnames]
      exact isQuiet_gatedBy fullText
    · rw [List.mem_singleton.mp hk, nameOf_of_unplaced h.second] at hchanged
      exact absurd hchanged (by decide)
  · exact absurd ⟨source, items, k, hholds, hk, hnames⟩ (not_imports_of_kind hholds' hkinds)

theorem crawl_deferred_gatedBy : ∃ l,
    ((gatedBy fullText).crawlEagerly ⟨false, ["lib.rs"]⟩).result = .ok l ∧
    ((gatedBy fullText).crawl ⟨false, ["lib.rs"]⟩).result = .ok l ∧
    ((gatedBy notText).crawlEagerly ⟨false, ["lib.rs"]⟩).result.isOk = false ∧
    ((gatedBy notText).crawl ⟨false, ["lib.rs"]⟩).result = .ok l := by
  obtain ⟨heagerly, -, hregates⟩ := crawl_deferred (gatedBy fullText) ⟨false, ["lib.rs"]⟩
  have hok : ((gatedBy fullText).crawlEagerly ⟨false, ["lib.rs"]⟩).result =
      .ok ⟨⟨[("Lit", ⟨"Lit", .struct [], .always⟩)]⟩, .empty⟩ := by decide +kernel
  exact ⟨_, hok, heagerly _ hok, by decide +kernel,
    ((hregates _ _ regates_gatedBy).1 _).mp (heagerly _ hok)⟩

end Crate
end NodeSchema
