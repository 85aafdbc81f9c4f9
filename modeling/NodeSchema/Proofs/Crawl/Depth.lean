import Mathlib.Data.List.Chain
import Mathlib.Data.List.Perm.Subperm
import NodeSchema.Proofs.Crawl.Declarations
import NodeSchema.Proofs.FileTree

/-!
# How deep a crawl goes

`Crate.load` stops at a depth that is given to it.  If no file includes itself, the number of files
is enough: every file on the way down to another lies in another place, so the way is not longer
than there are files (`not_descends_of_isAcyclic`), and what lies deeper than the way goes is never
asked for (`load_succ_eq`).  So any greater depth gives the same result (`load_eq_of_isAcyclic`).
-/

set_option autoImplicit false

namespace NodeSchema
namespace Crate

open Rust Relation

variable {c : Crate} {path : Path}

/-- The text of a module is read from the file of its path. -/
theorem source_eq_ok_iff {source : Source} :
    c.source path = .ok source ↔ FileTree.isAskable (c.directory.join path) = true ∧
      c.tree.read (c.directory.join path) = .ok source.bytes ∧ source.path = path.toString := by
  obtain ⟨name, bytes⟩ := source
  rw [Crate.source]
  dsimp only
  split
  · next haskable =>
    split
    · next bytes' hread =>
      rw [hread, Except.ok.injEq, Except.ok.injEq, Source.mk.injEq]
      exact ⟨fun ⟨hname, hbytes⟩ ↦ ⟨haskable, hbytes, hname.symm⟩,
        fun ⟨_, hbytes, hname⟩ ↦ ⟨hname.symm, hbytes⟩⟩
    · next hread =>
      rw [hread]
      exact ⟨nofun, fun ⟨_, h, _⟩ ↦ nomatch h⟩
  · next haskable => exact ⟨nofun, fun ⟨h, _⟩ ↦ absurd h haskable⟩

/-- Where a file lies. -/
def placeOf (c : Crate) (path : Path) : Except FileFault (List String) :=
  c.tree.place (c.directory.join path)

/-- A file that was read is one of the files of the tree. -/
theorem exists_place_of_source {source : Source} (h : c.source path = .ok source) :
    ∃ place ∈ c.tree.files.map Prod.fst, c.placeOf path = .ok place := by
  obtain ⟨-, hread, -⟩ := source_eq_ok_iff.mp h
  obtain ⟨place, hplace, -, hfile⟩ := FileTree.exists_place_of_read hread
  obtain ⟨f, hf, -⟩ := Option.map_eq_some_iff.mp hfile
  have hname : f.1 = place := by simpa using List.find?_some hf
  exact ⟨place, hname ▸ List.mem_map_of_mem (List.mem_of_find?_eq_some hf), hplace⟩

variable [FileParser]

/-! ## Ways down -/

/-- There is a way of `n` imports down from a file. -/
def Descends (c : Crate) : Nat → Path → Prop
  | 0, _ => True
  | n + 1, path => ∃ child, c.Imports path child ∧ Descends c n child

theorem Descends.of_succ {n : Nat} (h : c.Descends (n + 1) path) : c.Descends n path := by
  induction n generalizing path with
  | zero => trivial
  | succ n ih =>
    obtain ⟨child, himports, hchild⟩ := h
    exact ⟨child, himports, ih hchild⟩

theorem Descends.of_le {m n : Nat} (h : c.Descends n path) (hmn : m ≤ n) : c.Descends m path := by
  induction n, hmn using Nat.le_induction with
  | base => exact h
  | succ n _ ih => exact ih h.of_succ

/-- A way down passes files that import something, each of them the next. -/
theorem Descends.exists_chain {n : Nat} (h : c.Descends (n + 1) path) :
    ∃ ps : List Path, ps.length = n ∧ (path :: ps).IsChain c.Imports ∧
      ∀ p ∈ path :: ps, ∃ child, c.Imports p child := by
  induction n generalizing path with
  | zero =>
    obtain ⟨child, himports, -⟩ := h
    exact ⟨[], rfl, .singleton _, List.forall_mem_singleton.mpr ⟨child, himports⟩⟩
  | succ n ih =>
    obtain ⟨child, himports, hchild⟩ := h
    obtain ⟨ps, hlength, hchain, hall⟩ := ih hchild
    exact ⟨child :: ps, by rw [List.length_cons, hlength], .cons_cons himports hchain,
      List.forall_mem_cons.mpr ⟨⟨child, himports⟩, hall⟩⟩

/-! ## Files that do not include themselves -/

/-- No file that is reachable includes a file that lies where it does itself. -/
def IsAcyclic (c : Crate) (root : Path) : Prop :=
  ∀ p q, c.Reachable root p → TransGen c.Imports p q → c.placeOf p ≠ c.placeOf q

/-- **Without files that include themselves, no way down is longer than there are files.** -/
theorem not_descends_of_isAcyclic (h : c.IsAcyclic path) : ¬ c.Descends c.maxDepth path := by
  intro hdescends
  obtain ⟨ps, hlength, hchain, hall⟩ := hdescends.exists_chain
  have hpairwise : (path :: ps).Pairwise (TransGen c.Imports) :=
    List.isChain_iff_pairwise.mp (hchain.imp fun _ _ himports ↦ .single himports)
  have hreachable (p : Path) (hp : p ∈ path :: ps) : c.Reachable path p := by
    rcases List.mem_cons.mp hp with rfl | hp
    · exact .refl
    · exact ((List.pairwise_cons.mp hpairwise).1 p hp).to_reflTransGen
  have hnodup : ((path :: ps).map c.placeOf).Nodup :=
    List.pairwise_map.mpr (hpairwise.imp_of_mem fun hp _ hpq ↦ h _ _ (hreachable _ hp) hpq)
  have hsubset : (path :: ps).map c.placeOf ⊆ (c.tree.files.map Prod.fst).map .ok := by
    intro place hplace
    obtain ⟨p, hp, rfl⟩ := List.mem_map.mp hplace
    obtain ⟨-, source, -, -, ⟨hsource, -⟩, -⟩ := hall p hp
    obtain ⟨place, hmem, hp⟩ := exists_place_of_source hsource
    rw [hp]
    exact List.mem_map_of_mem hmem
  have hle := (List.subperm_of_subset hnodup hsubset).length_le
  simp only [List.length_map, List.length_cons, hlength] at hle
  omega

/-! ## Loading deeper -/

/-- Visiting an item loads no file but the one that it names. -/
theorem visit_congr {load load' : Loader} {source : Source} {i : Attributed Item}
    (h : ∀ child, c.NamesFile source path i child → load child = load' child)
    (gates : List Gate) (isRoot : Bool) (l : Lookup) :
    c.visit load source path gates isRoot l i = c.visit load' source path gates isRoot l i := by
  cases hbody : i.item.body with
  | module isInline =>
    cases isInline with
    | false =>
      rw [visit, visit, hbody]
      dsimp only
      split
      · rfl
      · next hignored =>
        cases hfile : moduleFile source (i.item.name.getD "") i.attributes with
        | error e => rfl
        | ok file =>
          have hnames : c.NamesFile source path i (path.parent.join (.ofString file)) :=
            ⟨hbody, fun hmem ↦ hignored (List.contains_iff_mem.mpr hmem), file, hfile, rfl⟩
          rw [Logged.ofExcept_ok_bind, Logged.ofExcept_ok_bind, h _ hnames]
    | true => rw [visit, visit, hbody]
  | struct _ | enum _ | use _ | macroCall _ | expression _ | typeAlias _ | plain _ =>
    rw [visit, visit, hbody]

theorem visitAll_congr {load load' : Loader} {source : Source} {items : List (Attributed Item)}
    (h : ∀ i ∈ items, ∀ child, c.NamesFile source path i child → load child = load' child)
    (gates : List Gate) (isRoot : Bool) (l : Lookup) :
    c.visitAll load source path gates isRoot l items =
      c.visitAll load' source path gates isRoot l items := by
  induction items generalizing l with
  | nil => rfl
  | cons i is ih =>
    rw [List.forall_mem_cons] at h
    rw [visitAll, visitAll, visit_congr h.1]
    exact congrArg _ (funext fun l' ↦ ih h.2 l')

/-- **What lies deeper than a way down goes is never loaded.** -/
theorem load_succ_eq {n : Nat} (h : ¬ c.Descends n path) (isRoot : Bool) (gates : List Gate)
    (l : Lookup) : c.load (n + 1) isRoot path gates l = c.load n isRoot path gates l := by
  induction n generalizing isRoot path gates l with
  | zero => exact absurd trivial h
  | succ n ih =>
    rw [load, load]
    refine congrArg _ (funext fun _ ↦ ?_)
    cases hsource : c.source path with
    | error e => rfl
    | ok source =>
      rw [Logged.ofExcept_ok_bind, Logged.ofExcept_ok_bind]
      cases hitems : source.items with
      | error e => rfl
      | ok items =>
        rw [Logged.ofExcept_ok_bind, Logged.ofExcept_ok_bind]
        refine visitAll_congr (fun i hi child hchild ↦ ?_) gates isRoot l
        have himports : c.Imports path child := ⟨source, items, i, ⟨hsource, hitems⟩, hi, hchild⟩
        funext gates l
        exact ih (fun hdescends ↦ h ⟨child, himports, hdescends⟩) false gates l

/-- **If no file includes itself, any greater depth gives the same result.** -/
theorem load_eq_of_isAcyclic (h : c.IsAcyclic path) {n : Nat} (hn : c.maxDepth ≤ n)
    (isRoot : Bool) (gates : List Gate) (l : Lookup) :
    c.load n isRoot path gates l = c.load c.maxDepth isRoot path gates l := by
  induction n, hn using Nat.le_induction with
  | base => rfl
  | succ n hn ih =>
    rw [load_succ_eq _ isRoot gates l, ih]
    exact fun hdescends ↦ not_descends_of_isAcyclic h (hdescends.of_le hn)

end Crate
end NodeSchema
