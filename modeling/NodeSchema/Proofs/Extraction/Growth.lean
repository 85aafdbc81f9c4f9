import NodeSchema.Proofs.Extraction
import NodeSchema.Proofs.FileTree.Growth

/-!
# Extracting from a tree that has grown

What an extraction that succeeds has given, it gives again when the tree has grown, unless in one of
the places that it reads from (`ofPath_of_growsTo`, `result_text_of_growsTo`).  A place that it
looks for in vain counts as well: a configuration that comes up later would be read.  It is the only
such place, since an extraction that finds no file of any other sort fails.
-/

set_option autoImplicit false

namespace NodeSchema

/-! ## The configuration -/

theorem Path.normalParts_concat {name : String} (hname : name ≠ "..") (before names : List String) :
    normalParts before (names ++ [name]) = normalParts before names ++ [name] := by
  induction names generalizing before with
  | nil =>
    show normalParts before [name] = before.reverse ++ [name]
    rw [normalParts.eq_def]
    dsimp only
    rw [if_neg hname, normalParts, List.reverse_cons]
  | cons n names ih =>
    rw [List.cons_append, normalParts, normalParts, ih, ih]
    split <;> rfl

namespace Config

/-- A configuration file has the name that it has to have. -/
theorem exists_parts_fileAt (tree : FileTree) (p : Path) :
    ∃ init, (fileAt tree p).parts = init ++ [Failure.configName] := by
  have hnormal {p : Path} {init : List String} (hparts : p.parts = init ++ [Failure.configName]) :
      ∃ init, p.normal.parts = init ++ [Failure.configName] :=
    ⟨Path.normalParts [] init, by rw [Path.normal, hparts, Path.normalParts_concat (by decide)]⟩
  rw [fileAt]
  split
  · exact hnormal rfl
  · split
    · next hname =>
      rw [Path.name] at hname
      rcases List.eq_nil_or_concat' p.parts with hparts | ⟨init, last, hparts⟩
      · rw [hparts] at hname
        exact absurd hname (by decide)
      · rw [hparts, List.getLast?_concat] at hname
        obtain rfl : last = Failure.configName := hname
        exact hnormal hparts
    · exact hnormal rfl

/-- There is a place for the configuration of a crate that is there. -/
theorem exists_place_fileAt {tree : FileTree} {p : Path} (hdots : ".." ∉ p.parts)
    (h : tree.has p = true) : ∃ place, tree.place (fileAt tree p) = .ok place := by
  obtain ⟨init, hparts⟩ := exists_parts_fileAt tree p
  have hdirectory := FileTree.isDirectory_parent_fileAt hdots h
  rw [FileTree.isDirectory, FileTree.place, Path.parent, hparts, List.dropLast_concat] at hdirectory
  cases hinit : tree.placeFrom [] init with
  | error fault =>
    rw [hinit] at hdirectory
    cases hdirectory
  | ok d =>
    rw [hinit] at hdirectory
    refine ⟨d ++ [Failure.configName], ?_⟩
    rw [FileTree.place, hparts, FileTree.placeFrom_append hinit hdirectory]
    rfl

end Config

namespace Extraction

variable {tree tree' : FileTree} {changed : List String → Prop} {p : Path} {config : Config}

/-! ## What is read -/

theorem result_spellings_of_growsTo (h : tree.GrowsTo changed tree')
    (hp : tree.Misses changed config.tokenFilePath) {tokens : Table String}
    (htokens : (spellings ⟨tree, config⟩).result = .ok tokens) :
    (spellings ⟨tree', config⟩).result = .ok tokens := by
  rw [spellings] at htokens ⊢
  dsimp only at htokens ⊢
  split at htokens
  · next haskable =>
    rw [if_pos haskable]
    split at htokens
    · next bytes hread =>
      rw [h.read hp hread]
      exact htokens
    · cases htokens
  · cases htokens

section Manifest

variable [Toml.DocumentReader]

theorem manifestVersion_of_growsTo (h : tree.GrowsTo changed tree') {manifest : Path}
    (hp : tree.Misses changed manifest) {version : String}
    (hversion : Manifest.version tree manifest = .ok version) :
    Manifest.version tree' manifest = .ok version := by
  rw [Manifest.version] at hversion ⊢
  cases htext : tree.readText manifest with
  | ok text =>
    rw [htext] at hversion
    rw [h.readText hp htext]
    exact hversion
  | error e =>
    rw [htext] at hversion
    split at hversion
    · cases hversion
    · cases hversion
    · next heq => cases heq

theorem version_of_growsTo (h : tree.GrowsTo changed tree')
    (hp : (∀ v, config.version = some v → v = "") → tree.Misses changed config.manifestPath)
    {version : String} (hversion : Extraction.version ⟨tree, config⟩ = .ok version) :
    Extraction.version ⟨tree', config⟩ = .ok version := by
  rw [Extraction.version] at hversion ⊢
  dsimp only at hversion ⊢
  cases hv : config.version with
  | some v =>
    rw [hv] at hversion hp
    dsimp only at hversion ⊢
    split at hversion
    · next hempty =>
      rw [if_pos hempty]
      refine manifestVersion_of_growsTo h (hp fun v' hv' ↦ ?_) hversion
      cases hv'
      exact String.isEmpty_iff.mp hempty
    · next hempty =>
      rw [if_neg hempty]
      exact hversion
  | none =>
    rw [hv] at hversion hp
    exact manifestVersion_of_growsTo h (hp fun v hv ↦ by cases hv) hversion

end Manifest

variable [Yaml.DocumentReader]

theorem load_of_growsTo {p : Path} (hdots : ".." ∉ p.parts) (h : tree.GrowsTo changed tree')
    (hhas : tree.has p = true) (hp : tree.Misses changed (Config.fileAt tree p))
    (hload : Config.load tree p = .ok config) : Config.load tree' p = .ok config := by
  have hfile : Config.fileAt tree' p = Config.fileAt tree p := by
    rw [Config.fileAt, Config.fileAt, h.isDirectory_eq hhas]
  obtain ⟨place, hplace⟩ := Config.exists_place_fileAt hdots hhas
  rw [Config.load] at hload ⊢
  rw [hfile, h.has_eq hplace (hp place hplace)]
  split at hload
  · cases hload
  · next haskable =>
    rw [if_neg haskable]
    split at hload
    · next hthere =>
      rw [if_pos hthere]
      obtain ⟨text, htext, hload⟩ := bind_eq_ok.mp hload
      exact bind_eq_ok.mpr ⟨text, h.readText hp htext, hload⟩
    · next hthere =>
      rw [if_neg hthere]
      exact hload

variable [Rust.FileParser]

/-- The path is one of those that the extraction from a path reads, or of the configuration that it
looks for. -/
inductive Reads (tree : FileTree) (p : Path) : Path → Prop
  | configuration : Reads tree p (Config.fileAt tree p.normal)
  | spellings {x : Extraction} (h : ofPath tree p = .ok x) : Reads tree p x.config.tokenFilePath
  | module {x : Extraction} {path : Path} (h : ofPath tree p = .ok x)
      (hreachable : x.crate.Reachable (.ofString x.config.crateRoot) path) :
      Reads tree p (x.config.root.join path)
  | manifest {x : Extraction} (h : ofPath tree p = .ok x)
      (hversion : ∀ v, x.config.version = some v → v = "") : Reads tree p x.config.manifestPath

/-- **The configuration stays the same** when the tree grows elsewhere. -/
theorem ofPath_of_growsTo (h : tree.GrowsTo changed tree')
    (hp : ∀ path, Reads tree p path → tree.Misses changed path)
    (hx : ofPath tree p = .ok ⟨tree, config⟩) : ofPath tree' p = .ok ⟨tree', config⟩ := by
  obtain ⟨haskable, hhas, hload, -⟩ := ofPath_eq_ok_iff.mp hx
  exact ofPath_eq_ok_iff.mpr ⟨haskable, h.has hhas,
    load_of_growsTo p.dots_not_mem_parts_normal h hhas (hp _ .configuration) hload, rfl⟩

/-! ## The schema -/

variable [Toml.DocumentReader]

/-- **The schema stays the same** when the tree grows elsewhere. -/
theorem result_run_of_growsTo (h : tree.GrowsTo changed tree')
    (hp : ∀ path, Reads tree p path → tree.Misses changed path)
    (hx : ofPath tree p = .ok ⟨tree, config⟩) {d : Definitions}
    (hrun : (run ⟨tree, config⟩).result = .ok d) : (run ⟨tree', config⟩).result = .ok d := by
  obtain ⟨-, -, hrun⟩ := Logged.result_bind_eq_ok.mp hrun
  obtain ⟨tokens, htokens, hrun⟩ := Logged.result_bind_eq_ok.mp hrun
  obtain ⟨found, hfound, hrun⟩ := Logged.result_bind_eq_ok.mp hrun
  obtain ⟨version, hversion, hassemble⟩ := Logged.result_bind_eq_ok.mp hrun
  have hsource (path : Path) (source : Rust.Source)
      (hreachable : (crate ⟨tree, config⟩).Reachable (.ofString config.crateRoot) path)
      (hread : (crate ⟨tree, config⟩).source path = .ok source) :
      (crate ⟨tree', config⟩).source path = .ok source := by
    obtain ⟨haskable, hread, hpath⟩ := Crate.source_eq_ok_iff.mp hread
    have hmisses := hp (config.root.join path) (.module hx hreachable)
    exact Crate.source_eq_ok_iff.mpr ⟨haskable, h.read hmisses hread, hpath⟩
  have hcrawl : (crate ⟨tree', config⟩).crawl (.ofString config.crateRoot) =
      (crate ⟨tree, config⟩).crawl (.ofString config.crateRoot) :=
    Crate.crawl_eq_of_result rfl (isDirectory_root hx) h.count hsource hfound
  refine Logged.result_bind_eq_ok.mpr ⟨(), rfl, Logged.result_bind_eq_ok.mpr ⟨tokens,
    result_spellings_of_growsTo h (hp _ (.spellings hx)) htokens, Logged.result_bind_eq_ok.mpr
      ⟨found, (congrArg Logged.result hcrawl).trans hfound, Logged.result_bind_eq_ok.mpr
        ⟨version, ?_, hassemble⟩⟩⟩⟩
  exact version_of_growsTo h (fun hempty ↦ hp _ (.manifest hx hempty)) hversion

theorem result_text_of_growsTo (h : tree.GrowsTo changed tree')
    (hp : ∀ path, Reads tree p path → tree.Misses changed path)
    (hx : ofPath tree p = .ok ⟨tree, config⟩) {s : String}
    (htext : (Extraction.text ⟨tree, config⟩).result = .ok s) :
    (Extraction.text ⟨tree', config⟩).result = .ok s := by
  obtain ⟨d, hrun, hprint⟩ := Logged.result_bind_eq_ok.mp htext
  exact Logged.result_bind_eq_ok.mpr ⟨d, result_run_of_growsTo h hp hx hrun, hprint⟩

end Extraction
end NodeSchema
