import NodeSchema.Proofs.FileTree

/-!
# Trees that grow

A tree grows when files are written and directories are made, and nothing is taken away.
`FileTree.GrowsTo` says which places it may have changed in.  What was read before is read again
unless it lies in one of these places (`GrowsTo.read`), and so is the text of what was read
(`GrowsTo.readText`).

Making the directories above a file changes places on the way to it alone
(`growsTo_of_makeAllDirectories`).
-/

set_option autoImplicit false

namespace NodeSchema
namespace FileTree

/-- The place lies on the way of a path: a beginning of the path leads to it. -/
def IsOn (t : FileTree) (p : Path) (place : List String) : Prop :=
  ∃ names, names <+: p.parts ∧ t.placeFrom [] names = .ok place

/-- A tree has grown in some places: everything is still there, and in the other places nothing has
changed. -/
structure GrowsTo (changed : List String → Prop) (t t' : FileTree) : Prop where
  directories : ∀ place, t.hasDirectory place = true → t'.hasDirectory place = true
  files : ∀ place, (t.file? place).isSome = true →
    (t'.file? place).isSome = true ∧ t'.hasDirectory place = t.hasDirectory place
  others : ∀ place, ¬ changed place →
    t'.file? place = t.file? place ∧ t'.hasDirectory place = t.hasDirectory place
  count : t.files.length ≤ t'.files.length

section Growth

variable {t t' t'' : FileTree} {changed : List String → Prop} {p : Path} {place : List String}

theorem GrowsTo.refl (changed : List String → Prop) (t : FileTree) : GrowsTo changed t t :=
  ⟨fun _ h ↦ h, fun _ h ↦ ⟨h, rfl⟩, fun _ _ ↦ ⟨rfl, rfl⟩, Nat.le_refl _⟩

theorem GrowsTo.mono {changed' : List String → Prop} (h : GrowsTo changed t t')
    (hchanged : ∀ place, changed place → changed' place) : GrowsTo changed' t t' :=
  ⟨h.directories, h.files, fun place hplace ↦ h.others place (mt (hchanged place) hplace), h.count⟩

theorem GrowsTo.trans (h : GrowsTo changed t t') (h' : GrowsTo changed t' t'') :
    GrowsTo changed t t'' where
  directories place hplace := h'.directories place (h.directories place hplace)
  files place hplace := by
    obtain ⟨hfile, hdirectory⟩ := h.files place hplace
    obtain ⟨hfile', hdirectory'⟩ := h'.files place hfile
    exact ⟨hfile', hdirectory'.trans hdirectory⟩
  others place hplace := by
    obtain ⟨hfile, hdirectory⟩ := h.others place hplace
    obtain ⟨hfile', hdirectory'⟩ := h'.others place hplace
    exact ⟨hfile'.trans hfile, hdirectory'.trans hdirectory⟩
  count := Nat.le_trans h.count h'.count

/-! ## Reading -/

/-- **A path leads where it led before.** -/
theorem GrowsTo.leads (h : GrowsTo changed t t') (hplace : t.place p = .ok place) :
    t'.place p = .ok place :=
  placeFrom_mono h.directories hplace

theorem GrowsTo.isOn (h : GrowsTo changed t t') (hplace : t.IsOn p place) : t'.IsOn p place := by
  obtain ⟨names, hprefix, hnames⟩ := hplace
  exact ⟨names, hprefix, placeFrom_mono h.directories hnames⟩

theorem GrowsTo.has (h : GrowsTo changed t t') (hp : t.has p = true) : t'.has p = true := by
  rw [FileTree.has] at hp ⊢
  cases hplace : t.place p with
  | error fault =>
    rw [hplace] at hp
    cases hp
  | ok place =>
    rw [hplace] at hp
    rw [h.leads hplace]
    dsimp only at hp ⊢
    rw [Bool.or_eq_true] at hp ⊢
    exact hp.imp (h.directories place) fun hfile ↦ (h.files place hfile).1

/-- What is there is a directory if it was one. -/
theorem GrowsTo.isDirectory_eq (h : GrowsTo changed t t') (hp : t.has p = true) :
    t'.isDirectory p = t.isDirectory p := by
  rw [FileTree.has] at hp
  rw [FileTree.isDirectory, FileTree.isDirectory]
  cases hplace : t.place p with
  | error fault =>
    rw [hplace] at hp
    cases hp
  | ok place =>
    rw [hplace] at hp
    rw [h.leads hplace]
    dsimp only at hp ⊢
    rw [Bool.or_eq_true] at hp
    rcases hp with hdirectory | hfile
    · rw [hdirectory, h.directories place hdirectory]
    · exact (h.files place hfile).2

/-- What is not there has not come, if the path leads to none of the places. -/
theorem GrowsTo.has_eq (h : GrowsTo changed t t') (hplace : t.place p = .ok place)
    (hother : ¬ changed place) : t'.has p = t.has p := by
  rw [FileTree.has, FileTree.has, hplace, h.leads hplace]
  dsimp only
  rw [(h.others place hother).1, (h.others place hother).2]

/-- **What was read is read again**, from any other place. -/
theorem GrowsTo.read (h : GrowsTo changed t t') (hp : t.Misses changed p) {bytes : List UInt8}
    (hread : t.read p = .ok bytes) : t'.read p = .ok bytes := by
  obtain ⟨place, hplace, -⟩ := exists_place_of_read hread
  obtain ⟨hfile, hdirectory⟩ := h.others place (hp place hplace)
  rw [FileTree.read, hplace] at hread
  rw [FileTree.read, h.leads hplace]
  dsimp only at hread ⊢
  rw [hfile, hdirectory]
  exact hread

theorem GrowsTo.readText (h : GrowsTo changed t t') (hp : t.Misses changed p) {text : List Char}
    (hread : t.readText p = .ok text) : t'.readText p = .ok text := by
  rw [FileTree.readText] at hread ⊢
  split at hread
  · next haskable =>
    rw [if_pos haskable]
    cases hbytes : t.read p with
    | error fault =>
      rw [hbytes] at hread
      cases hread
    | ok bytes =>
      rw [hbytes] at hread
      rw [h.read hp hbytes]
      exact hread
  · cases hread

/-! ## Changing -/

theorem SameBut.growsTo (h : SameBut changed t t')
    (hfiles : ∀ place, (t.file? place).isSome = true → (t'.file? place).isSome = true)
    (hcount : t.files.length ≤ t'.files.length) : GrowsTo changed t t' where
  directories place hplace := h.hasDirectory_eq place ▸ hplace
  files place hplace := ⟨hfiles place hplace, (h.hasDirectory_eq place).symm⟩
  others place hplace := ⟨(h.files place hplace).symm, (h.hasDirectory_eq place).symm⟩
  count := hcount

/-- Writing a file grows the tree in its place. -/
theorem growsTo_of_write {bytes : List UInt8} (h : t.write p bytes = .ok t')
    (hp : ∀ place, t.place p = .ok place → changed place) : GrowsTo changed t t' := by
  refine (sameBut_of_write h hp).growsTo (fun other hother ↦ ?_) (length_le_of_write h)
  obtain ⟨place, -, rfl⟩ := write_eq_ok_iff.mp h
  rw [file?_put]
  split
  · rfl
  · exact hother

/-- Making a directory grows the tree in its place. -/
theorem growsTo_of_makeDirectory (h : t.makeDirectory p = .ok t')
    (hp : ∀ place, t.place p = .ok place → changed place) : GrowsTo changed t t' := by
  rw [makeDirectory] at h
  split at h
  · cases h
  · next place hplace =>
    split at h
    · cases h
    · next hnone =>
      split at h
      · cases h
        rw [Bool.or_eq_true, not_or, Bool.not_eq_true, Bool.not_eq_true] at hnone
        have hother (other : List String) (hne : other ≠ place) :
            hasDirectory { t with directories := t.directories ++ [place] } other =
              t.hasDirectory other := by
          simp [hasDirectory, hne]
        refine ⟨fun other hdirectory ↦ ?_, fun other hfile ↦ ⟨hfile, hother other ?_⟩,
          fun other hchanged ↦ ⟨rfl, hother other ?_⟩, Nat.le_refl _⟩
        · by_cases hne : other = place
          · simp [hasDirectory, hne]
          · rwa [hother other hne]
        · rintro rfl
          rw [hnone.2] at hfile
          cases hfile
        · rintro rfl
          exact hchanged (hp _ hplace)
      · split at h <;> cases h

theorem isOn_self (hplace : t.place p = .ok place) : t.IsOn p place :=
  ⟨p.parts, List.prefix_refl _, hplace⟩

theorem IsOn.of_parent (hplace : t.IsOn p.parent place) : t.IsOn p place := by
  obtain ⟨names, hprefix, hnames⟩ := hplace
  exact ⟨names, hprefix.trans (List.dropLast_prefix _), hnames⟩

theorem growsTo_of_makeDirectoriesFrom {size : Nat} {r : Except FileFault Unit}
    (h : makeDirectoriesFrom size t p = (t', r))
    (hp : ∀ place, t'.IsOn p place → changed place) : GrowsTo changed t t' := by
  induction size generalizing t p t' r with
  | zero =>
    cases h
    exact .refl changed t
  | succ size ih =>
    rw [makeDirectoriesFrom] at h
    dsimp only at h
    split at h
    · -- The directory above is made first.
      split at h
      · next t₁ hparent =>
        split at h
        · next t₂ hmade =>
          cases h
          have hgrows : GrowsTo (fun _ ↦ True) t₁ t' :=
            growsTo_of_makeDirectory hmade fun _ _ ↦ trivial
          refine (ih hparent fun place hplace ↦ hp place (hgrows.isOn hplace.of_parent)).trans ?_
          exact growsTo_of_makeDirectory hmade fun place hplace ↦
            hp place (hgrows.isOn (isOn_self hplace))
        · cases h
          exact ih hparent fun place hplace ↦ hp place hplace.of_parent
      · exact ih h fun place hplace ↦ hp place hplace.of_parent
    · split at h
      · next t₂ hmade =>
        cases h
        have hgrows : GrowsTo (fun _ ↦ True) t t' :=
          growsTo_of_makeDirectory hmade fun _ _ ↦ trivial
        exact growsTo_of_makeDirectory hmade fun place hplace ↦
          hp place (hgrows.isOn (isOn_self hplace))
      · cases h
        exact .refl changed t

/-- **Making the directories of a path** grows the tree in places on its way alone. -/
theorem growsTo_of_makeAllDirectories {r : Except FileFault Unit}
    (h : t.makeAllDirectories p = (t', r)) (hp : ∀ place, t'.IsOn p place → changed place) :
    GrowsTo changed t t' :=
  growsTo_of_makeDirectoriesFrom h hp

/-- Directories that are there are not made again. -/
theorem makeAllDirectories_of_isDirectory (hp : t.isDirectory p = true) :
    t.makeAllDirectories p = (t, .ok ()) := by
  rw [makeAllDirectories]
  cases p.parts.length with
  | zero => rfl
  | succ size =>
    have hmade : t.makeDirectory p = .error .alreadyExists := by
      rw [isDirectory] at hp
      cases hplace : t.place p with
      | error fault =>
        rw [hplace] at hp
        cases hp
      | ok place =>
        rw [hplace] at hp
        rw [makeDirectory, hplace]
        dsimp only at hp ⊢
        rw [hp, Bool.true_or, if_pos rfl]
    rw [makeDirectoriesFrom, hmade]
    dsimp only
    rw [hp, if_pos rfl]

/-! ## Places for a file -/

theorem GrowsTo.admits (h : GrowsTo changed t t') (hplace : t.Admits p place)
    (hfile : (t.file? place).isSome = true) : t'.Admits p place where
  leads := h.leads hplace.leads
  isFile := (h.files place hfile).2.trans hplace.isFile
  above := h.directories _ hplace.above

/-- Where a file was written it can be written again. -/
theorem exists_admits_of_write {bytes : List UInt8} (h : t.write p bytes = .ok t') :
    ∃ place, t.place p = .ok place ∧ t'.Admits p place ∧ t'.file? place = some bytes := by
  obtain ⟨place, hadmits, rfl⟩ := write_eq_ok_iff.mp h
  have hsame : SameBut (place = ·) t (t.put place bytes) := sameBut_put rfl t bytes
  refine ⟨place, hadmits.leads, ⟨hsame.place_of_eq_ok hadmits.leads, ?_, ?_⟩, ?_⟩
  · rw [← hsame.hasDirectory_eq, hadmits.isFile]
  · rw [← hsame.hasDirectory_eq, hadmits.above]
  · rw [file?_put, if_pos rfl]

/-- The directory of a file is a directory. -/
theorem Admits.isDirectory_parent (h : t.Admits p place) : t.isDirectory p.parent = true := by
  have hplace := h.leads
  rcases List.eq_nil_or_concat' p.parts with hparts | ⟨init, last, hparts⟩
  · rw [FileTree.place, hparts] at hplace
    cases hplace
    cases h.isFile
  · rw [FileTree.place, hparts] at hplace
    have hlast : last ≠ ".." := by
      rintro rfl
      have hopen := isOpen_of_placeFrom_concat_dots (isOpen_nil t) hplace
      exact absurd hopen.hasDirectory (Bool.eq_false_iff.mp h.isFile)
    obtain ⟨d, hd, hopen, -⟩ := exists_directory_of_placeFrom (isOpen_nil t) hlast hplace
    rw [isDirectory, FileTree.place, Path.parent, hparts, List.dropLast_concat, hd]
    exact hopen.hasDirectory

end Growth
end FileTree
end NodeSchema
