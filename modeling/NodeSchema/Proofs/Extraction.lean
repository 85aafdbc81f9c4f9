import NodeSchema.Extraction
import NodeSchema.Proofs.Config
import NodeSchema.Proofs.Crawl.Frame

/-!
# What an extraction depends on

An extraction looks at the crate's directory and configuration, at the table of spellings, at the
files of its modules and at the manifest (`Extraction.LooksAt`).  Trees that differ in another file
alone give the same extraction: the same configuration (`ofPath_congr`) and the same text
(`result_text_congr`).
-/

set_option autoImplicit false

namespace NodeSchema

/-! ## Paths without double dots -/

namespace Path

theorem dots_not_mem_normalParts {before names : List String} (h : ".." ∉ before) :
    ".." ∉ normalParts before names := by
  induction names generalizing before with
  | nil => rwa [normalParts, List.mem_reverse]
  | cons name rest ih =>
    rw [normalParts]
    split
    · exact ih fun hmem ↦ h (List.mem_of_mem_tail hmem)
    · next hname => exact ih (List.not_mem_cons_of_ne_of_not_mem (Ne.symm hname) h)

theorem dots_not_mem_parts_normal (p : Path) : ".." ∉ p.normal.parts :=
  dots_not_mem_normalParts List.not_mem_nil

theorem normalParts_eq {before names : List String} (h : ".." ∉ names) :
    normalParts before names = before.reverse ++ names := by
  induction names generalizing before with
  | nil => rw [normalParts, List.append_nil]
  | cons name rest ih =>
    obtain ⟨hname, hrest⟩ := List.ne_and_not_mem_of_not_mem_cons h
    rw [normalParts, if_neg hname.symm, ih hrest, List.reverse_cons, List.append_assoc,
      List.singleton_append]

/-- A path without double dots stays as it is. -/
theorem normal_eq_self {p : Path} (h : ".." ∉ p.parts) : p.normal = p := by
  rw [normal, normalParts_eq h]
  rfl

end Path

/-! ## The directory of a crate -/

namespace Config

variable {tree : FileTree} {p : Path} {c : Config}

theorem root_of_ofEntries {root : Path} {es : List (Yaml.Value × Yaml.Value)}
    (h : ofEntries root es = .ok c) : c.root = root := by
  obtain ⟨forced, -, rfl⟩ := forced_of_ofEntries h
  rfl

variable [Yaml.DocumentReader]

theorem root_of_ofText {root : Path} {text : List Char} (h : ofText root text = .ok c) :
    c.root = root := by
  rw [ofText] at h
  split at h
  · cases h
    rfl
  · split at h
    · next v _ =>
      rw [ofValue.eq_def] at h
      split at h
      · split at h
        · exact root_of_ofEntries h
        · cases h
      · cases h
        rfl
    · cases h
    · cases h

/-- The directory of a crate is that of its configuration file. -/
theorem root_of_load (h : load tree p = .ok c) : c.root = (fileAt tree p).parent := by
  rw [load] at h
  split at h
  · cases h
  · split at h
    · obtain ⟨text, -, htext⟩ := bind_eq_ok.mp h
      exact root_of_ofText htext
    · cases h
      rfl

end Config

theorem Path.parent_join_name (p : Path) (name : String) :
    (p.join ⟨false, [name]⟩).parent = p := by
  rw [parent, join, if_neg Bool.false_ne_true]
  dsimp only
  rw [List.dropLast_concat]

/-- A file lies in a directory. -/
theorem FileTree.isDirectory_parent {tree : FileTree} {p : Path} (hdots : ".." ∉ p.parts)
    (h : tree.has p = true) (hp : tree.isDirectory p = false) :
    tree.isDirectory p.parent = true := by
  rw [has] at h
  rw [isDirectory] at hp
  cases hplace : tree.place p with
  | error fault =>
    rw [hplace] at h
    cases h
  | ok place =>
    rw [hplace] at hp
    rcases List.eq_nil_or_concat' p.parts with hparts | ⟨init, last, hparts⟩
    · rw [FileTree.place, hparts] at hplace
      cases hplace
      cases hp
    · have hlast : last ≠ ".." := by
        rintro rfl
        exact hdots (hparts ▸ List.mem_append_right _ List.mem_cons_self)
      rw [FileTree.place, hparts] at hplace
      obtain ⟨d, hd, hopen, -⟩ := exists_directory_of_placeFrom (isOpen_nil tree) hlast hplace
      rw [isDirectory, FileTree.place, Path.parent, hparts, List.dropLast_concat, hd]
      exact hopen.hasDirectory

/-- The configuration of a crate that is there lies in a directory. -/
theorem FileTree.isDirectory_parent_fileAt {tree : FileTree} {p : Path} (hdots : ".." ∉ p.parts)
    (h : tree.has p = true) : tree.isDirectory (Config.fileAt tree p).parent = true := by
  have hjoin {p : Path} (hdots : ".." ∉ p.parts) :
      (p.join ⟨false, [Failure.configName]⟩).normal.parent = p := by
    rw [Path.normal_eq_self, Path.parent_join_name]
    rw [Path.join, if_neg Bool.false_ne_true]
    exact List.not_mem_append hdots (by decide)
  have hparent : ".." ∉ p.parent.parts := fun hmem ↦ hdots (List.dropLast_subset _ hmem)
  rw [Config.fileAt]
  cases hp : tree.isDirectory p with
  | true =>
    rw [if_pos rfl, hjoin hdots, hp]
  | false =>
    rw [if_neg Bool.false_ne_true]
    split
    · rw [Path.normal_eq_self hdots]
      exact isDirectory_parent hdots h hp
    · rw [hjoin hparent]
      exact isDirectory_parent hdots h hp

namespace Extraction

variable {tree tree' : FileTree} {p : Path} {x : Extraction} {changed : List String → Prop}
  {config : Config}

theorem result_spellings_congr (h : tree.SameBut changed tree')
    (hp : tree.Misses changed config.tokenFilePath) {tokens : Table String}
    (htokens : (Extraction.spellings ⟨tree', config⟩).result = .ok tokens) :
    (Extraction.spellings ⟨tree, config⟩).result = .ok tokens := by
  rw [Extraction.spellings] at htokens ⊢
  dsimp only at htokens ⊢
  split at htokens
  · next haskable =>
    rw [if_pos haskable]
    split at htokens
    · next bytes hread =>
      rw [(h.read_eq_ok_iff hp).mpr hread]
      exact htokens
    · cases htokens
  · cases htokens

theorem version_congr [Toml.DocumentReader] (h : tree.SameBut changed tree')
    (hp : (∀ v, config.version = some v → v = "") → tree.Misses changed config.manifestPath)
    {version : String} (hversion : Extraction.version ⟨tree', config⟩ = .ok version) :
    Extraction.version ⟨tree, config⟩ = .ok version := by
  have hmanifest (hempty : ∀ v, config.version = some v → v = "")
      (hversion : Manifest.version tree' config.manifestPath = .ok version) :
      Manifest.version tree config.manifestPath = .ok version := by
    rw [Manifest.version] at hversion ⊢
    cases htext : tree'.readText config.manifestPath with
    | ok text =>
      obtain ⟨_, htext', rfl⟩ :=
        (h.alike_readText (hp hempty)).symm.exists_of_eq_ok htext
      rw [htext] at hversion
      rw [htext']
      exact hversion
    | error e =>
      rw [htext] at hversion
      split at hversion
      · cases hversion
      · cases hversion
      · next heq => cases heq
  rw [Extraction.version] at hversion ⊢
  dsimp only at hversion ⊢
  split at hversion
  · next v hv =>
    split at hversion
    · next hempty =>
      rw [if_pos hempty]
      refine hmanifest (fun v' hv' ↦ ?_) hversion
      cases hv.symm.trans hv'
      exact String.isEmpty_iff.mp hempty
    · next hempty =>
      rw [if_neg hempty]
      exact hversion
  · next hnone =>
    exact hmanifest (fun v hv ↦ absurd (hv.symm.trans hnone) (Option.some_ne_none v)) hversion

variable [Yaml.DocumentReader]

/-- What an extraction is of. -/
theorem ofPath_eq_ok_iff : ofPath tree p = .ok x ↔
    FileTree.isAskable p.normal = true ∧ tree.has p.normal = true ∧
      Config.load tree p.normal = .ok x.config ∧ x.tree = tree := by
  rw [ofPath]
  split
  · next haskable =>
    rw [Bool.not_eq_true'] at haskable
    rw [haskable]
    exact ⟨nofun, fun ⟨h, _⟩ ↦ nomatch h⟩
  · next haskable =>
    rw [Bool.not_eq_true', Bool.not_eq_false] at haskable
    split
    · next hhas =>
      rw [map_eq_ok]
      constructor
      · rintro ⟨config, hload, rfl⟩
        exact ⟨haskable, hhas, hload, rfl⟩
      · rintro ⟨-, -, hload, rfl⟩
        exact ⟨x.config, hload, rfl⟩
    · next hhas => exact ⟨nofun, fun ⟨_, h, _⟩ ↦ absurd h hhas⟩

/-- The crate of an extraction lies in a directory. -/
theorem isDirectory_root (h : ofPath tree p = .ok x) : tree.isDirectory x.config.root = true := by
  obtain ⟨-, hhas, hload, -⟩ := ofPath_eq_ok_iff.mp h
  rw [Config.root_of_load hload]
  exact FileTree.isDirectory_parent_fileAt p.dots_not_mem_parts_normal hhas

/-! ## What is looked at -/

theorem alike_load {p : Path} (h : tree.SameBut changed tree')
    (hp : tree.Misses changed (Config.fileAt tree p)) :
    Alike Eq (Config.load tree p) (Config.load tree' p) := by
  have hfile : Config.fileAt tree' p = Config.fileAt tree p := by
    rw [Config.fileAt, Config.fileAt, h.isDirectory_eq]
  rw [Config.load, Config.load, hfile]
  split
  · exact .error
  · rw [← h.has_eq hp]
    split
    · refine (h.alike_readText hp).bind fun text _ htext ↦ ?_
      subst htext
      exact .of_eq (fun _ ↦ rfl) rfl
    · exact .ok rfl

variable [Rust.FileParser]

/-- The path is one of those that the extraction from a path asks for or reads. -/
inductive LooksAt (tree : FileTree) (p : Path) : Path → Prop
  | crate : LooksAt tree p p.normal
  | configuration : LooksAt tree p (Config.fileAt tree p.normal)
  | spellings {x : Extraction} (h : ofPath tree p = .ok x) :
      LooksAt tree p x.config.tokenFilePath
  | module {x : Extraction} {path : Path} (h : ofPath tree p = .ok x)
      (hreachable : x.crate.Reachable (.ofString x.config.crateRoot) path) :
      LooksAt tree p (x.config.root.join path)
  | manifest {x : Extraction} (h : ofPath tree p = .ok x)
      (hversion : ∀ v, x.config.version = some v → v = "") : LooksAt tree p x.config.manifestPath

theorem ofPath_congr (h : tree.SameBut changed tree')
    (hp : ∀ path, LooksAt tree p path → tree.Misses changed path) {x' : Extraction}
    (hx' : ofPath tree' p = .ok x') : ofPath tree p = .ok ⟨tree, x'.config⟩ := by
  obtain ⟨haskable, hhas, hload, -⟩ := ofPath_eq_ok_iff.mp hx'
  have hhas' : tree.has p.normal = true := by rwa [h.has_eq (hp _ .crate)]
  obtain ⟨config, hconfig, rfl⟩ := (alike_load h (hp _ .configuration)).symm.exists_of_eq_ok hload
  exact ofPath_eq_ok_iff.mpr ⟨haskable, hhas', hconfig, rfl⟩

theorem result_text_congr [Toml.DocumentReader] (h : tree.SameBut changed tree')
    (hfiles : tree.files.length ≤ tree'.files.length)
    (hp : ∀ path, LooksAt tree p path → tree.Misses changed path)
    (hx : ofPath tree p = .ok ⟨tree, config⟩) {text : String}
    (htext : (Extraction.text ⟨tree', config⟩).result = .ok text) :
    (Extraction.text ⟨tree, config⟩).result = .ok text := by
  obtain ⟨d, hrun, hprint⟩ := Logged.result_bind_eq_ok.mp htext
  obtain ⟨-, -, hrun⟩ := Logged.result_bind_eq_ok.mp hrun
  obtain ⟨tokens, htokens, hrun⟩ := Logged.result_bind_eq_ok.mp hrun
  obtain ⟨found, hfound, hrun⟩ := Logged.result_bind_eq_ok.mp hrun
  obtain ⟨version, hversion, hassemble⟩ := Logged.result_bind_eq_ok.mp hrun
  have hroot : tree.isDirectory config.root = true := isDirectory_root hx
  have hsource (path : Path) (source : Rust.Source)
      (hreachable : (crate ⟨tree, config⟩).Reachable (.ofString config.crateRoot) path)
      (hread : (crate ⟨tree', config⟩).source path = .ok source) :
      (crate ⟨tree, config⟩).source path = .ok source := by
    obtain ⟨haskable, hread, hpath⟩ := Crate.source_eq_ok_iff.mp hread
    have hpath' := hp (config.root.join path) (.module hx hreachable)
    exact Crate.source_eq_ok_iff.mpr ⟨haskable, (h.read_eq_ok_iff hpath').mpr hread, hpath⟩
  refine Logged.result_bind_eq_ok.mpr ⟨d, ?_, hprint⟩
  refine Logged.result_bind_eq_ok.mpr ⟨(), rfl, ?_⟩
  refine Logged.result_bind_eq_ok.mpr ⟨tokens, ?_, ?_⟩
  · exact result_spellings_congr h (hp _ (.spellings hx)) htokens
  refine Logged.result_bind_eq_ok.mpr ⟨found, ?_, ?_⟩
  · have hcrawl : (crate ⟨tree, config⟩).crawl (.ofString config.crateRoot) =
        (crate ⟨tree', config⟩).crawl (.ofString config.crateRoot) :=
      Crate.crawl_congr rfl hroot hfiles hsource hfound
    exact (congrArg Logged.result hcrawl).trans hfound
  refine Logged.result_bind_eq_ok.mpr ⟨version, ?_, hassemble⟩
  exact version_congr h (fun hempty ↦ hp _ (.manifest hx hempty)) hversion

end Extraction
end NodeSchema
