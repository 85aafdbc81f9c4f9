import NodeSchema.FileTree
import NodeSchema.Proofs.Alike

/-!
# Changing files

Writing a file and making directories change little of a tree.  `FileTree.SameBut` says that two
trees have the same directories, and the same files outside some places; a tree that is written to
is such a tree (`sameBut_of_write`).  Where a path leads does not depend on the files
(`SameBut.place_eq_ok_iff`), and what is read from another place does not depend on the places that
differ (`SameBut.read_eq_ok_iff`).

A path that leads to a file is a way through directories with the name of the file at its end
(`exists_directory_of_placeFrom`), so what lies beside a file is found from the directory of the
file alone (`placeFrom_append`).
-/

set_option autoImplicit false

namespace NodeSchema
namespace FileTree

/-! ## Reading -/

/-- A file that is read lies where its path leads, which is no directory. -/
theorem exists_place_of_read {t : FileTree} {p : Path} {bytes : List UInt8}
    (h : t.read p = .ok bytes) :
    ∃ place, t.place p = .ok place ∧ t.hasDirectory place = false ∧
      t.file? place = some bytes := by
  rw [read] at h
  split at h
  · cases h
  · next place hplace =>
    split at h
    · cases h
    · next hdirectory =>
      split at h
      · next bytes' hfile =>
        cases h
        exact ⟨place, hplace, Bool.eq_false_iff.mpr hdirectory, hfile⟩
      · cases h

/-! ## Trees that differ in some files -/

/-- The trees have the same directories, and the same files outside some places. -/
structure SameBut (changed : List String → Prop) (t t' : FileTree) : Prop where
  directories : t.directories = t'.directories
  files : ∀ place, ¬ changed place → t.file? place = t'.file? place

/-- A path leads to none of some places. -/
def Misses (t : FileTree) (changed : List String → Prop) (p : Path) : Prop :=
  ∀ place, t.place p = .ok place → ¬ changed place

section SameBut

variable {t t' t'' : FileTree} {changed : List String → Prop} {p : Path}

theorem SameBut.refl (changed : List String → Prop) (t : FileTree) : SameBut changed t t :=
  ⟨rfl, fun _ _ ↦ rfl⟩

theorem SameBut.symm (h : SameBut changed t t') : SameBut changed t' t :=
  ⟨h.directories.symm, fun place hplace ↦ (h.files place hplace).symm⟩

theorem SameBut.trans (h : SameBut changed t t') (h' : SameBut changed t' t'') :
    SameBut changed t t'' :=
  ⟨h.directories.trans h'.directories,
    fun place hplace ↦ (h.files place hplace).trans (h'.files place hplace)⟩

theorem SameBut.hasDirectory_eq (h : SameBut changed t t') (place : List String) :
    t.hasDirectory place = t'.hasDirectory place := by
  rw [hasDirectory, hasDirectory, h.directories]

/-- Names lead where they lead in any tree that has more directories. -/
theorem placeFrom_mono (h : ∀ place, t.hasDirectory place = true → t'.hasDirectory place = true)
    {current names place : List String} (hplace : t.placeFrom current names = .ok place) :
    t'.placeFrom current names = .ok place := by
  induction names generalizing current with
  | nil => exact hplace
  | cons name rest ih =>
    rw [placeFrom] at hplace ⊢
    split at hplace
    · next hname =>
      rw [if_pos hname]
      exact ih hplace
    · next hname =>
      rw [if_neg hname]
      split at hplace
      · cases hplace
      · next hlength =>
        rw [if_neg hlength]
        cases rest with
        | nil => exact hplace
        | cons name' rest =>
          dsimp only at hplace ⊢
          split at hplace
          · next hdirectory =>
            rw [if_pos (h _ hdirectory)]
            exact ih hplace
          · split at hplace <;> cases hplace

theorem SameBut.place_of_eq_ok (h : SameBut changed t t') {place : List String}
    (hplace : t.place p = .ok place) : t'.place p = .ok place :=
  placeFrom_mono (fun place hdirectory ↦ h.hasDirectory_eq place ▸ hdirectory) hplace

/-- **Where a path leads** does not depend on the files of a tree. -/
theorem SameBut.place_eq_ok_iff (h : SameBut changed t t') {place : List String} :
    t.place p = .ok place ↔ t'.place p = .ok place :=
  ⟨h.place_of_eq_ok, h.symm.place_of_eq_ok⟩

theorem SameBut.misses (h : SameBut changed t t') (hp : t.Misses changed p) :
    t'.Misses changed p :=
  fun place hplace ↦ hp place (h.place_eq_ok_iff.mpr hplace)

theorem SameBut.isDirectory_eq (h : SameBut changed t t') (p : Path) :
    t.isDirectory p = t'.isDirectory p := by
  rw [isDirectory, isDirectory]
  cases hplace : t.place p with
  | ok place =>
    rw [h.place_eq_ok_iff.mp hplace]
    exact h.hasDirectory_eq place
  | error fault =>
    cases hplace' : t'.place p with
    | ok place =>
      rw [h.place_eq_ok_iff.mpr hplace'] at hplace
      cases hplace
    | error => rfl

theorem SameBut.has_eq (h : SameBut changed t t') (hp : t.Misses changed p) :
    t.has p = t'.has p := by
  rw [has, has]
  cases hplace : t.place p with
  | ok place =>
    rw [h.place_eq_ok_iff.mp hplace]
    dsimp only
    rw [h.hasDirectory_eq, h.files place (hp place hplace)]
  | error fault =>
    cases hplace' : t'.place p with
    | ok place =>
      rw [h.place_eq_ok_iff.mpr hplace'] at hplace
      cases hplace
    | error => rfl

theorem SameBut.read_of_eq_ok (h : SameBut changed t t') (hp : t.Misses changed p)
    {bytes : List UInt8} (hread : t.read p = .ok bytes) : t'.read p = .ok bytes := by
  rw [read] at hread ⊢
  cases hplace : t.place p with
  | error fault =>
    rw [hplace] at hread
    cases hread
  | ok place =>
    rw [hplace] at hread
    dsimp only at hread
    rw [h.hasDirectory_eq, h.files place (hp place hplace)] at hread
    rw [h.place_eq_ok_iff.mp hplace]
    exact hread

/-- **What is read** from any other place is the same. -/
theorem SameBut.read_eq_ok_iff (h : SameBut changed t t') (hp : t.Misses changed p)
    {bytes : List UInt8} : t.read p = .ok bytes ↔ t'.read p = .ok bytes :=
  ⟨h.read_of_eq_ok hp, h.symm.read_of_eq_ok (h.misses hp)⟩

/-- The text of a file of any other place is the same, or cannot be read from either tree. -/
theorem SameBut.alike_readText (h : SameBut changed t t') (hp : t.Misses changed p) :
    Alike Eq (t.readText p) (t'.readText p) := by
  rw [readText, readText]
  split
  · cases hread : t.read p with
    | ok bytes =>
      rw [(h.read_eq_ok_iff hp).mp hread]
      exact .of_eq (fun _ ↦ rfl) rfl
    | error fault =>
      cases hread' : t'.read p with
      | ok bytes =>
        rw [(h.read_eq_ok_iff hp).mpr hread'] at hread
        cases hread
      | error => exact .error
  · exact .error

end SameBut

/-! ## Writing -/

variable {t t' : FileTree} {p : Path} {bytes : List UInt8}

/-- A file can be written where a path leads to a name in a directory that is none itself. -/
structure Admits (t : FileTree) (p : Path) (place : List String) : Prop where
  leads : t.place p = .ok place
  isFile : t.hasDirectory place = false
  above : t.hasDirectory place.dropLast = true

/-- A file that is written is put where its path leads. -/
theorem write_eq_ok_iff :
    t.write p bytes = .ok t' ↔ ∃ place, t.Admits p place ∧ t' = t.put place bytes := by
  rw [write]
  constructor
  · intro h
    split at h
    · cases h
    · next place hplace =>
      split at h
      · cases h
      · next hdirectory =>
        split at h
        · next habove =>
          cases h
          exact ⟨place, ⟨hplace, Bool.eq_false_iff.mpr hdirectory, habove⟩, rfl⟩
        · split at h <;> cases h
  · rintro ⟨place, ⟨hplace, hdirectory, habove⟩, rfl⟩
    rw [hplace]
    dsimp only
    rw [if_neg (Bool.eq_false_iff.mp hdirectory), if_pos habove]

theorem sameBut_put {changed : List String → Prop} {place : List String} (hplace : changed place)
    (t : FileTree) (bytes : List UInt8) : SameBut changed t (t.put place bytes) :=
  ⟨rfl, fun other hother ↦ by
    have hne : place ≠ other := fun heq ↦ hother (heq ▸ hplace)
    rw [file?_put, if_neg hne]⟩

theorem length_le_putInto (place : List String) (bytes : List UInt8)
    (fs : List (List String × List UInt8)) : fs.length ≤ (putInto place bytes fs).length := by
  induction fs with
  | nil => exact Nat.zero_le _
  | cons f fs ih =>
    rw [putInto]
    split
    · exact Nat.le_refl _
    · exact Nat.succ_le_succ ih

/-- Writing takes no file away. -/
theorem length_le_of_write (h : t.write p bytes = .ok t') : t.files.length ≤ t'.files.length := by
  obtain ⟨place, -, rfl⟩ := write_eq_ok_iff.mp h
  exact length_le_putInto place bytes t.files

/-- Writing changes no other file. -/
theorem sameBut_of_write {changed : List String → Prop} (h : t.write p bytes = .ok t')
    (hp : ∀ place, t.place p = .ok place → changed place) : SameBut changed t t' := by
  obtain ⟨place, hadmits, rfl⟩ := write_eq_ok_iff.mp h
  exact sameBut_put (hp place hadmits.leads) t bytes

/-- A file that was written is read as it was written. -/
theorem read_of_write (h : t.write p bytes = .ok t') : t'.read p = .ok bytes := by
  obtain ⟨place, ⟨hplace, hdirectory, -⟩, rfl⟩ := write_eq_ok_iff.mp h
  have hsame : SameBut (place = ·) t (t.put place bytes) := sameBut_put rfl t bytes
  have hplace' := hsame.place_eq_ok_iff.mp hplace
  have hdirectory' : (t.put place bytes).hasDirectory place = false := hdirectory
  rw [read, hplace']
  dsimp only
  rw [hdirectory', file?_put, if_pos rfl]
  rfl

/-! ## Making directories -/

theorem files_of_makeDirectory (h : t.makeDirectory p = .ok t') : t'.files = t.files := by
  rw [makeDirectory] at h
  split at h
  · cases h
  · split at h
    · cases h
    · split at h
      · cases h
        rfl
      · split at h <;> cases h

theorem files_makeDirectoriesFrom (size : Nat) (t : FileTree) (p : Path) :
    (makeDirectoriesFrom size t p).1.files = t.files := by
  induction size generalizing t p with
  | zero => rfl
  | succ size ih =>
    rw [makeDirectoriesFrom]
    dsimp only
    split
    · -- The directory above is made first.
      split
      · next t₁ hparent =>
        have hfiles : t₁.files = t.files := by rw [← ih t p.parent, hparent]
        split
        · next hmade => rw [files_of_makeDirectory hmade, hfiles]
        · exact hfiles
      · exact ih t p.parent
    · split
      · next hmade => exact files_of_makeDirectory hmade
      · rfl

/-- Making directories changes no file. -/
theorem file?_makeAllDirectories (t : FileTree) (p : Path) (place : List String) :
    (t.makeAllDirectories p).1.file? place = t.file? place := by
  rw [file?, file?, makeAllDirectories, files_makeDirectoriesFrom]

/-! ## The directory of a file -/

/-- The place and all that it lies in are directories. -/
def IsOpen (t : FileTree) (place : List String) : Prop := ∀ n, t.hasDirectory (place.take n) = true

theorem isOpen_nil (t : FileTree) : t.IsOpen [] := fun n ↦ by
  rw [List.take_nil]
  rfl

theorem IsOpen.hasDirectory {place : List String} (h : t.IsOpen place) :
    t.hasDirectory place = true := by
  have := h place.length
  rwa [List.take_length] at this

theorem IsOpen.dropLast {place : List String} (h : t.IsOpen place) : t.IsOpen place.dropLast := by
  intro n
  rw [List.dropLast_eq_take, List.take_take]
  exact h _

theorem IsOpen.concat {place : List String} {name : String} (h : t.IsOpen place)
    (hname : t.hasDirectory (place ++ [name]) = true) : t.IsOpen (place ++ [name]) := by
  intro n
  by_cases hn : n ≤ place.length
  · rw [List.take_append_of_le_length hn]
    exact h n
  · rw [List.take_of_length_le]
    · exact hname
    · rw [List.length_append, List.length_singleton]
      omega

/-- **A path that leads to a name leads through a directory**: unless it ends with a double dot,
the names before the last one lead to the directory that the last one is in. -/
theorem exists_directory_of_placeFrom {current init place : List String} {last : String}
    (hcurrent : t.IsOpen current) (hlast : last ≠ "..")
    (h : t.placeFrom current (init ++ [last]) = .ok place) :
    ∃ d, t.placeFrom current init = .ok d ∧ t.IsOpen d ∧ place = d ++ [last] := by
  induction init generalizing current with
  | nil =>
    rw [List.nil_append, placeFrom, if_neg hlast] at h
    split at h
    · cases h
    · exact ⟨current, rfl, hcurrent, (Except.ok.inj h).symm⟩
  | cons name init ih =>
    rw [List.cons_append, placeFrom] at h
    rw [placeFrom]
    split at h
    · next hname =>
      rw [if_pos hname]
      exact ih hcurrent.dropLast h
    · next hname =>
      rw [if_neg hname]
      split at h
      · cases h
      · next hlength =>
        rw [if_neg hlength]
        obtain ⟨name', rest, hrest⟩ := List.exists_cons_of_ne_nil
          (List.append_ne_nil_of_right_ne_nil init (List.cons_ne_nil last []))
        rw [hrest] at h
        dsimp only at h
        split at h
        · next hdirectory =>
          rw [← hrest] at h
          have hnext := hcurrent.concat hdirectory
          cases init with
          | nil => exact ih hnext h
          | cons =>
            dsimp only
            rw [if_pos hdirectory]
            exact ih hnext h
        · split at h <;> cases h

/-- A path that ends with a double dot leads to a directory. -/
theorem isOpen_of_placeFrom_concat_dots {current init place : List String}
    (hcurrent : t.IsOpen current) (h : t.placeFrom current (init ++ [".."]) = .ok place) :
    t.IsOpen place := by
  induction init generalizing current with
  | nil =>
    rw [List.nil_append, placeFrom, if_pos rfl] at h
    cases h
    exact hcurrent.dropLast
  | cons name init ih =>
    rw [List.cons_append, placeFrom] at h
    split at h
    · exact ih hcurrent.dropLast h
    · split at h
      · cases h
      · obtain ⟨name', rest, hrest⟩ := List.exists_cons_of_ne_nil
          (List.append_ne_nil_of_right_ne_nil init (List.cons_ne_nil ".." []))
        rw [hrest] at h
        dsimp only at h
        split at h
        · next hdirectory =>
          rw [← hrest] at h
          exact ih (hcurrent.concat hdirectory) h
        · split at h <;> cases h

/-- From a directory on, names lead where they lead from it. -/
theorem placeFrom_append {current xs d : List String} (h : t.placeFrom current xs = .ok d)
    (hd : t.hasDirectory d = true) (ys : List String) :
    t.placeFrom current (xs ++ ys) = t.placeFrom d ys := by
  induction xs generalizing current with
  | nil =>
    cases h
    rfl
  | cons name xs ih =>
    rw [placeFrom] at h
    rw [List.cons_append, placeFrom]
    split at h
    · next hname =>
      rw [if_pos hname]
      exact ih h
    · next hname =>
      rw [if_neg hname]
      split at h
      · cases h
      · next hlength =>
        rw [if_neg hlength]
        cases xs with
        | nil =>
          cases h
          cases ys with
          | nil => rfl
          | cons =>
            dsimp only [List.nil_append]
            rw [if_pos hd]
        | cons name' xs =>
          dsimp only [List.cons_append] at h ⊢
          split at h
          · next hdirectory =>
            rw [if_pos hdirectory]
            exact ih h
          · split at h <;> cases h

end FileTree
end NodeSchema
