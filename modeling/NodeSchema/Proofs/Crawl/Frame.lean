import NodeSchema.Proofs.Crawl.Depth

/-!
# What a crawl depends on

A crawl depends on the files that are reachable from its root, and on no other file of the tree.  So
a crawl that succeeds gives the same on any other tree that has the same reachable files
(`crawl_congr`, `crawl_eq_of_result`).

What has to be shown for this is that the depth of the crawl, which is bounded by the number of all
files, is not what it ends at: a crawl that succeeds is of files that do not include themselves
(`isAcyclic_of_load`).  A file that is found under two paths names the same files from both
(`exists_imports_of_placeOf_eq`), so a way down that leads back to where it began could be gone on
forever, but a walk ends.
-/

set_option autoImplicit false

namespace NodeSchema
namespace Crate

open Rust Relation

variable {c c' : Crate} {path : Path}

/-! ## Files under two paths -/

theorem parts_join_concat (directory : Path) {init : List String} {last : String}
    (hpath : path.parts = init ++ [last]) :
    (directory.join path).parts = (directory.join path.parent).parts ++ [last] := by
  rw [Path.join, Path.join, Path.parent, hpath, List.dropLast_concat]
  dsimp only
  split
  · exact hpath
  · exact (List.append_assoc _ _ _).symm

theorem parts_join_join_parent (directory : Path) {file : Path} (hfile : file.isAbsolute = false)
    {init : List String} {last : String} (hpath : path.parts = init ++ [last]) :
    (directory.join (path.parent.join file)).parts =
      (directory.join path.parent).parts ++ file.parts := by
  have hparent : path.parent.join file = ⟨path.isAbsolute, init ++ file.parts⟩ := by
    rw [Path.join, hfile, Path.parent, hpath, List.dropLast_concat]
    rfl
  rw [hparent, Path.join, Path.join, Path.parent, hpath, List.dropLast_concat]
  dsimp only
  split
  · rfl
  · exact (List.append_assoc _ _ _).symm

theorem path_of_eq_ok {source : Source} {attributes : List Attribute} {file : Option String}
    (h : Attribute.path source attributes = .ok file) (source' : Source) :
    Attribute.path source' attributes = .ok file := by
  rw [Attribute.path] at h ⊢
  split at h
  · exact h
  · split at h
    · exact h
    · cases h

/-- A file that is read lies in a directory, and what it names is looked up from there. -/
theorem exists_directory_of_source (hdirectory : c.tree.isDirectory c.directory = true)
    {source : Source} (h : c.source path = .ok source) :
    ∃ d name, c.placeOf path = .ok (d ++ [name]) ∧ ∀ file : Path, file.isAbsolute = false →
      c.placeOf (path.parent.join file) = c.tree.placeFrom d file.parts := by
  obtain ⟨-, hread, -⟩ := source_eq_ok_iff.mp h
  obtain ⟨place, hplace, hfile, -⟩ := FileTree.exists_place_of_read hread
  rcases List.eq_nil_or_concat' path.parts with hparts | ⟨init, last, hparts⟩
  · -- Such a path leads to the root or to the directory of the crate, neither of which is a file.
    have hroot : c.tree.hasDirectory place = true := by
      rw [FileTree.place, Path.join] at hplace
      split at hplace
      · rw [hparts] at hplace
        cases hplace
        rfl
      · rw [hparts, List.append_nil] at hplace
        rwa [FileTree.isDirectory, FileTree.place, hplace] at hdirectory
    exact absurd hroot (Bool.eq_false_iff.mp hfile)
  · have hjoin := parts_join_concat c.directory hparts
    have hlast : last ≠ ".." := by
      rintro rfl
      rw [FileTree.place, hjoin] at hplace
      have hopen := FileTree.isOpen_of_placeFrom_concat_dots (FileTree.isOpen_nil _) hplace
      exact absurd hopen.hasDirectory (Bool.eq_false_iff.mp hfile)
    rw [FileTree.place, hjoin] at hplace
    obtain ⟨d, hd, hopen, rfl⟩ :=
      FileTree.exists_directory_of_placeFrom (FileTree.isOpen_nil _) hlast hplace
    refine ⟨d, last, ?_, fun file hrelative ↦ ?_⟩
    · rw [placeOf, FileTree.place, hjoin, hplace]
    · rw [placeOf, FileTree.place, parts_join_join_parent _ hrelative hparts]
      exact FileTree.placeFrom_append hd hopen.hasDirectory file.parts

/-- What is read does not depend on the path by which it is found. -/
theorem bytes_of_placeOf_eq {p q : Path} {source source' : Source}
    (hplace : c.placeOf p = c.placeOf q) (hp : c.source p = .ok source)
    (hq : c.source q = .ok source') : source.bytes = source'.bytes := by
  obtain ⟨-, hp, -⟩ := source_eq_ok_iff.mp hp
  obtain ⟨-, hq, -⟩ := source_eq_ok_iff.mp hq
  rw [placeOf, placeOf] at hplace
  rw [FileTree.read, hplace] at hp
  rw [FileTree.read] at hq
  exact Except.ok.inj (hp.symm.trans hq)

/-- The file that an item names does not depend on the path of the text. -/
theorem moduleFile_of_eq_ok {source : Source} {name file : String} {attributes : List Attribute}
    (h : moduleFile source name attributes = .ok file) (source' : Source) :
    moduleFile source' name attributes = .ok file := by
  rw [moduleFile, map_eq_ok] at h ⊢
  obtain ⟨named, hnamed, hfile⟩ := h
  exact ⟨named, path_of_eq_ok hnamed source', hfile⟩

variable [FileParser]

theorem items_of_bytes_eq {source source' : Source} (h : source.bytes = source'.bytes)
    {items : List (Attributed Item)} (hitems : source.items = .ok items) :
    source'.items = .ok items := by
  rw [Source.items, ← h]
  rw [Source.items] at hitems
  split at hitems
  · exact hitems
  · cases hitems

/-- **A file that is found under two paths names the same files from both.** -/
theorem exists_imports_of_placeOf_eq (hdirectory : c.tree.isDirectory c.directory = true)
    {p q child : Path} (hplace : c.placeOf p = c.placeOf q) (himports : c.Imports p child)
    {source' : Source} (hq : c.source q = .ok source') :
    ∃ child', c.Imports q child' ∧ c.placeOf child = c.placeOf child' := by
  obtain ⟨source, items, i, ⟨hp, hitems⟩, hi, hbody, hignored, file, hfile, rfl⟩ := himports
  have hitems' := items_of_bytes_eq (bytes_of_placeOf_eq hplace hp hq) hitems
  refine ⟨q.parent.join (.ofString file), ⟨source', items, i, ⟨hq, hitems'⟩, hi, hbody, hignored,
    file, moduleFile_of_eq_ok hfile source', rfl⟩, ?_⟩
  cases habsolute : (Path.ofString file).isAbsolute with
  | true => rw [Path.join, Path.join, if_pos habsolute, if_pos habsolute]
  | false =>
    obtain ⟨d, name, hd, hbelow⟩ := exists_directory_of_source hdirectory hp
    obtain ⟨d', name', hd', hbelow'⟩ := exists_directory_of_source hdirectory hq
    have hsame : d ++ [name] = d' ++ [name'] := Except.ok.inj (hd.symm.trans (hplace.trans hd'))
    obtain ⟨rfl, -⟩ := List.append_inj' hsame rfl
    rw [hbelow _ habsolute, hbelow' _ habsolute]

/-! ## No file includes itself -/

/-- Below a file from which every way down ends, none leads back to the place where it began. -/
theorem placeOf_ne_of_acc (hdirectory : c.tree.isDirectory c.directory = true) {p q : Path}
    (hacc : Acc (fun child path ↦ c.Imports path child) p)
    (hread : ∀ q, TransGen c.Imports p q → ∃ source, c.source q = .ok source)
    (h : TransGen c.Imports p q) : c.placeOf p ≠ c.placeOf q := by
  induction hacc generalizing q with
  | intro p _ ih =>
    intro hplace
    obtain ⟨child, hchild, hrest⟩ := TransGen.head'_iff.mp h
    obtain ⟨source', hq⟩ := hread q h
    obtain ⟨child', hchild', hsame⟩ := exists_imports_of_placeOf_eq hdirectory hplace hchild hq
    exact ih child hchild (fun r hr ↦ hread r (.head hchild hr))
      (TransGen.tail' hrest hchild') hsame

/-- **A crawl that succeeds is of files that do not include themselves.** -/
theorem isAcyclic_of_load (hdirectory : c.tree.isDirectory c.directory = true) {fuel : Nat}
    {isRoot : Bool} {l l' : Lookup} (h : (c.load fuel isRoot path [] l).result = .ok l') :
    c.IsAcyclic path := by
  have hload : (c.load fuel isRoot path (gatesOf c.settings [] []) l).result = .ok l' := h
  obtain ⟨source, items, found, hholds, hwalk, -⟩ := walk_of_load hload
  have hwalks {p : Path} (hp : c.Reachable path p) :=
    hwalk.exists_walk_of_reachable hholds hp
  intro p q hp hpq
  obtain ⟨_, _, _, _, hholds', hwalk', -⟩ := hwalks hp
  refine placeOf_ne_of_acc hdirectory (hwalk'.acc hholds') (fun r hr ↦ ?_) hpq
  obtain ⟨_, source', _, _, hholds', -, -⟩ := hwalks (hp.trans hr.to_reflTransGen)
  exact ⟨source', hholds'.1⟩

/-! ## Trees that agree on what is reachable -/

theorem visitAll_settings (h : c.settings = c'.settings) (load : Loader) (source : Source)
    (gates : List Gate) (isRoot : Bool) (l : Lookup) (items : List (Attributed Item)) :
    c.visitAll load source path gates isRoot l items =
      c'.visitAll load source path gates isRoot l items := by
  induction items generalizing l with
  | nil => rfl
  | cons i is ih =>
    have hvisit : c.visit load source path gates isRoot l i =
        c'.visit load source path gates isRoot l i := by
      rw [visit, visit, h]
    rw [visitAll, visitAll, hvisit]
    exact congrArg _ (funext ih)

/-- What loading a file gives depends on the files that are reachable from it. -/
theorem load_congr (hsettings : c.settings = c'.settings)
    (hsource : ∀ p, c.Reachable path p → c.source p = c'.source p) (fuel : Nat) (isRoot : Bool)
    (gates : List Gate) (l : Lookup) :
    c.load fuel isRoot path gates l = c'.load fuel isRoot path gates l := by
  induction fuel generalizing isRoot path gates l with
  | zero => rfl
  | succ fuel ih =>
    rw [load, load, ← hsource path .refl]
    refine congrArg _ (funext fun _ ↦ ?_)
    cases hread : c.source path with
    | error e => rw [Logged.ofExcept_error_bind, Logged.ofExcept_error_bind]
    | ok source =>
      rw [Logged.ofExcept_ok_bind, Logged.ofExcept_ok_bind]
      cases hitems : source.items with
      | error e => rw [Logged.ofExcept_error_bind, Logged.ofExcept_error_bind]
      | ok items =>
        rw [Logged.ofExcept_ok_bind, Logged.ofExcept_ok_bind]
        have hload : ∀ i ∈ items, ∀ child, c.NamesFile source path i child →
            c.load fuel false child = c'.load fuel false child := by
          intro i hi child hchild
          have himports : c.Imports path child := ⟨source, items, i, ⟨hread, hitems⟩, hi, hchild⟩
          funext gates l
          exact ih (fun p hp ↦ hsource p (hp.head himports)) false gates l
        rw [visitAll_congr hload, visitAll_settings hsettings]

/-- Files that are reachable are reachable in any crate in which the files on the way are the
same. -/
theorem Reachable.of_source (hsettings : c.settings = c'.settings)
    (hsource : ∀ p source, c.Reachable path p → c'.source p = .ok source → c.source p = .ok source)
    {p : Path} (h : c'.Reachable path p) : c.Reachable path p := by
  induction h with
  | refl => exact .refl
  | tail _ himports ih =>
    obtain ⟨source, items, i, ⟨hread, hitems⟩, hi, hbody, hignored, hfile⟩ := himports
    exact ih.tail ⟨source, items, i, ⟨hsource _ source ih hread, hitems⟩, hi, hbody,
      hsettings ▸ hignored, hfile⟩

/-- **A crawl that succeeds gives the same in any other tree that holds the files it reads.** -/
theorem crawl_congr (hsettings : c.settings = c'.settings)
    (hdirectory : c.tree.isDirectory c.directory = true)
    (hdepth : c.tree.files.length ≤ c'.tree.files.length)
    (hsource : ∀ p source, c.Reachable path p → c'.source p = .ok source → c.source p = .ok source)
    {l : Lookup} (h : (c'.crawl path).result = .ok l) : c.crawl path = c'.crawl path := by
  obtain ⟨l', hload, -⟩ := Logged.result_bind_eq_ok.mp h
  have hload' : (c'.load c'.maxDepth true path (gatesOf c'.settings [] []) .empty).result =
    .ok l' := hload
  obtain ⟨source, items, found, hholds, hwalk, -⟩ := walk_of_load hload'
  -- What is reachable was read, in this tree as in the other.
  have hsame (p : Path) (hp : c'.Reachable path p) : c'.source p = c.source p := by
    obtain ⟨_, source', _, _, hholds', -, -⟩ := hwalk.exists_walk_of_reachable hholds hp
    rw [hholds'.1, hsource p source' (hp.of_source hsettings hsource) hholds'.1]
  have heq := load_congr hsettings.symm hsame c'.maxDepth true [] .empty
  have hacyclic : c.IsAcyclic path := isAcyclic_of_load hdirectory (heq ▸ hload)
  have hmax : c.maxDepth ≤ c'.maxDepth := Nat.add_le_add_right hdepth 1
  rw [crawl, crawl, heq, load_eq_of_isAcyclic hacyclic hmax]

/-- **A crawl that succeeds gives the same in any larger tree** that still holds the files that it
read. -/
theorem crawl_eq_of_result (hsettings : c.settings = c'.settings)
    (hdirectory : c.tree.isDirectory c.directory = true)
    (hdepth : c.tree.files.length ≤ c'.tree.files.length)
    (hsource : ∀ p source, c.Reachable path p → c.source p = .ok source → c'.source p = .ok source)
    {l : Lookup} (h : (c.crawl path).result = .ok l) : c'.crawl path = c.crawl path := by
  obtain ⟨l', hload, -⟩ := Logged.result_bind_eq_ok.mp h
  have hload' : (c.load c.maxDepth true path (gatesOf c.settings [] []) .empty).result = .ok l' :=
    hload
  obtain ⟨source, items, found, hholds, hwalk, -⟩ := walk_of_load hload'
  have hsame (p : Path) (hp : c.Reachable path p) : c.source p = c'.source p := by
    obtain ⟨_, source', _, _, hholds', -, -⟩ := hwalk.exists_walk_of_reachable hholds hp
    rw [hholds'.1, hsource p source' hp hholds'.1]
  have hacyclic : c.IsAcyclic path := isAcyclic_of_load hdirectory hload
  have hmax : c.maxDepth ≤ c'.maxDepth := Nat.add_le_add_right hdepth 1
  rw [crawl, crawl, ← load_congr hsettings hsame, load_eq_of_isAcyclic hacyclic hmax]

end Crate
end NodeSchema
