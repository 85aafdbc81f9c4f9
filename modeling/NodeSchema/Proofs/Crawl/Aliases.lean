import NodeSchema.Proofs.Alias.Renames
import NodeSchema.Proofs.Crawl.Findings
import NodeSchema.Proofs.Crawl.Walk
import NodeSchema.Rust.Grammar.File

/-!
# The aliases of a crate

The aliases of a crate are entered from the public imports of its root file, one import after the
other, and from nowhere else (`aliases_crawl`).  Those of each import are the map of its renames,
and so `aliases_of_imports` says which names a crate exports under which other ones.
-/

set_option autoImplicit false

namespace NodeSchema

open Rust

/-! ## What a crawl enters -/

/-- What an item of the root file exports under other names: a public import. -/
def Rust.Attributed.exported? (i : Attributed Item) : Option UseTree :=
  match i.item.body with
  | .use tree => if i.item.isPublic then some tree else none
  | _ => none

namespace Crate

theorem renames_declared {d : Declaration} {gates : List Gate} {f : Findings}
    (h : declared d gates = .ok f) : f.renames = [] := by
  obtain ⟨gate, -, h⟩ := bind_eq_ok.mp h
  obtain ⟨d, -, h⟩ := bind_eq_ok.mp h
  cases h
  rfl

section Crawl

variable [FileParser] {c : Crate} {find : Path → List Gate → Except Failure Findings}
  {source : Source} {path : Path} {gates : List Gate} {isRoot : Bool} {f : Findings}

/-- The renames that an item gives: those of a public import of the root file. -/
def entered (isRoot : Bool) (i : Attributed Item) : List (String × String) :=
  if isRoot then i.exported?.toList.flatMap fun tree ↦ (Alias.ofUse tree).entries else []

/-- **Only public imports of the root file give renames**, if the files of modules give none. -/
theorem renames_reads (hfind : ∀ path gates f, find path gates = .ok f → f.renames = [])
    {i : Attributed Item} (h : c.reads find source path gates isRoot i = .ok f) :
    f.renames = entered isRoot i := by
  have hother (hbody : ∀ tree, i.item.body ≠ .use tree) : entered isRoot i = [] := by
    have hexported : i.exported? = none := by
      rw [Attributed.exported?]
      split
      · next tree htree => exact absurd htree (hbody tree)
      · rfl
    rw [entered, hexported, Option.toList_none, List.flatMap_nil, ite_self]
  rw [reads] at h
  split at h
  · next hbody =>
    rw [hother (by rw [hbody]; exact fun _ h ↦ ItemBody.noConfusion h)]
    dsimp only at h
    split at h
    · cases h
      rfl
    · obtain ⟨file, -, h⟩ := bind_eq_ok.mp h
      exact hfind _ _ f h
  · next hbody =>
    rw [hother (by rw [hbody]; exact fun _ h ↦ ItemBody.noConfusion h)]
    obtain ⟨recognized, -, h⟩ := bind_eq_ok.mp h
    cases recognized with
    | none =>
      cases h
      rfl
    | some d => exact renames_declared h
  · next hbody =>
    rw [hother (by rw [hbody]; exact fun _ h ↦ ItemBody.noConfusion h)]
    dsimp only at h
    split at h
    · obtain ⟨d, -, h⟩ := bind_eq_ok.mp h
      exact renames_declared h
    · cases h
      rfl
  · next tree hbody =>
    rw [entered, Attributed.exported?, hbody]
    cases isRoot <;> cases hpublic : i.item.isPublic <;> rw [hpublic] at h <;> cases h
    · rfl
    · rfl
    · rfl
    · exact (List.append_nil _).symm
  · next hmodule hcall hstruct huse =>
    rw [hother huse]
    cases h
    rfl

theorem renames_concat (hfind : ∀ path gates f, find path gates = .ok f → f.renames = [])
    {items : List (Attributed Item)} {fs : List Findings}
    (h : items.mapM (c.reads find source path gates isRoot) = .ok fs) :
    (Findings.concat fs).renames = items.flatMap (entered isRoot) := by
  have hreads := mapM_eq_ok.mp h
  clear h
  show fs.flatMap Findings.renames = _
  induction hreads with
  | nil => rfl
  | cons h _ ih => rw [List.flatMap_cons, List.flatMap_cons, ih, renames_reads hfind h]

/-- The files of modules give no renames. -/
theorem renames_finds (fuel : Nat) (path : Path) (gates : List Gate) (f : Findings)
    (h : c.finds fuel false path gates = .ok f) : f.renames = [] := by
  induction fuel generalizing path gates f with
  | zero => cases h
  | succ fuel ih =>
    obtain ⟨source, -, h⟩ := bind_eq_ok.mp h
    obtain ⟨items, -, h⟩ := bind_eq_ok.mp h
    obtain ⟨fs, hfs, rfl⟩ := map_eq_ok.mp h
    rw [renames_concat ih hfs]
    exact List.flatMap_eq_nil_iff.mpr fun _ _ ↦ rfl

/-- What the root file gives. -/
theorem renames_findings {root : Path} (h : c.findings root = .ok f) :
    ∃ source items, c.Holds root source items ∧ f.renames = items.flatMap (entered true) := by
  obtain ⟨source, hsource, h⟩ := bind_eq_ok.mp h
  obtain ⟨items, hitems, h⟩ := bind_eq_ok.mp h
  obtain ⟨fs, hfs, rfl⟩ := map_eq_ok.mp h
  exact ⟨source, items, ⟨hsource, hitems⟩, renames_concat (renames_finds _) hfs⟩

/-- The aliases of imports, entered one import after the other. -/
def aliasesOf (trees : List UseTree) : Table String :=
  trees.foldl (fun t tree ↦ t.insertAll (Alias.ofUse tree).entries) .empty

theorem aliases_crawl {root : Path} {l : Lookup} (h : (c.crawl root).result = .ok l) :
    ∃ source items, c.Holds root source items ∧
      l.aliases = aliasesOf (items.filterMap Attributed.exported?) := by
  rw [crawl_eq] at h
  obtain ⟨f, hf, rfl⟩ := map_eq_ok.mp h
  obtain ⟨source, items, hholds, hrenames⟩ := renames_findings hf
  refine ⟨source, items, hholds, ?_⟩
  have hentered : items.flatMap (entered true) =
      (items.filterMap Attributed.exported?).flatMap fun tree ↦ (Alias.ofUse tree).entries := by
    rw [List.filterMap_eq_flatMap_toList, List.flatMap_assoc]
    rfl
  show Table.empty.insertAll f.renames = _
  rw [hrenames, hentered, Table.insertAll, List.foldl_flatMap]
  rfl

/-- **The aliases of a crate are those of its public imports.**  Without comments in the paths that
it renames, an import has the map of the renames in it that introduce a name for its aliases,
however deep its lists nest.  A crawl that succeeds has entered the aliases of the public imports of
the root file, in the order of the file, and no others. -/
theorem aliases_of_imports (c : Crate) (root : Path) :
    (∀ tree rs, Alias.HasRenames tree rs →
      Alias.IsMapOf (Alias.ofUse tree) (Alias.RenameClause.introducing rs)) ∧
    ∀ l, (c.crawl root).result = .ok l → ∃ source items, c.Holds root source items ∧
      l.aliases = aliasesOf (items.filterMap Attributed.exported?) :=
  ⟨fun _ _ h ↦ Alias.isMapOf_ofUse h, fun _ h ↦ aliases_crawl h⟩

end Crawl

/-! ## An import with lists in lists -/

/-- The import `a::\x7bb as C, \x7bc as _\x7d, d::e as C\x7d`. -/
def exportedList : UseTree :=
  .list [.rename "b" "C", .list [.rename "c" "_"], .rename "d::e" "C"]

/-- The renames in `exportedList`. -/
def exportedRenames : List Alias.RenameClause := [⟨"b", "C"⟩, ⟨"c", "_"⟩, ⟨"e", "C"⟩]

theorem hasRenames_exportedList : Alias.HasRenames exportedList exportedRenames := by
  have hfirst (original name : String) (h : IsWord original) :
      Alias.HasRenames (.rename original name) [⟨original, name⟩] :=
    @Alias.HasRenames.rename [] original original name (.first h.isPathName.isSpaced)
  have hd : IsWord "d" := isWord_of_all (by decide)
  have he : IsWord "e" := isWord_of_all (by decide)
  have hscoped : Alias.HasRenames (.rename "d::e" "C") [⟨"e", "C"⟩] :=
    @Alias.HasRenames.rename ["d"] "e" "d::e" "C"
      (.segment (.first hd.isPathName.isSpaced) he.isPathName.isSpaced)
  exact .list (.cons (hfirst "b" "C" (isWord_of_all (by decide)))
    (.cons (.list (.cons (hfirst "c" "_" (isWord_of_all (by decide))) .nil))
      (.cons hscoped .nil)))

/-- A root file with two public imports and one that is not. -/
def exportingText : List UInt8 :=
  Text.bytesOf ("pub use a::\x7bb as C, \x7bc as _\x7d, d::e as C\x7d;\n" ++
    "use x as Y;\npub use g::h as D;\n")

/-- A crate that consists of `exportingText`. -/
def exporting : Crate where
  tree := { files := [(["lib.rs"], exportingText)], directories := [] }
  directory := ⟨true, []⟩
  settings := .default

theorem aliases_of_imports_exporting :
    Alias.HasRenames exportedList exportedRenames ∧
      (Alias.ofUse exportedList).find? "C" = some "e" ∧
      (exporting.crawl ⟨false, ["lib.rs"]⟩).result =
        .ok ⟨.empty, .ofPairs [("C", "e"), ("D", "h")]⟩ ∧
      ∃ source items, exporting.Holds ⟨false, ["lib.rs"]⟩ source items ∧
        Table.ofPairs [("C", "e"), ("D", "h")] =
          aliasesOf (items.filterMap Attributed.exported?) := by
  have hcrawl : (exporting.crawl ⟨false, ["lib.rs"]⟩).result =
      .ok ⟨.empty, .ofPairs [("C", "e"), ("D", "h")]⟩ := by decide +kernel
  obtain ⟨haliases, hentered⟩ := aliases_of_imports exporting ⟨false, ["lib.rs"]⟩
  refine ⟨hasRenames_exportedList, ?_, hcrawl, hentered _ hcrawl⟩
  rw [(haliases _ _ hasRenames_exportedList).find?]
  decide

end Crate
end NodeSchema
