import NodeSchema.Proofs.Crawl.Depth
import NodeSchema.Proofs.Extraction
import NodeSchema.Proofs.Reports
import NodeSchema.Proofs.Schema.Proper

/-!
# What an extraction trips over

An extraction ends with a fault, which no command reports, for one of few reasons, each of them at
its turn (`Config.TripsOver`, `Extraction.TripsOver`).  A text cannot be had from its file; a path
holds a zero character; the modules of the crate include each other without end; a source text, or
what is rebuilt from a macro call, nests too deep for the parser; a number of the configuration has
no text; or the reader of the configuration or of the manifest stops at a fault of its own.  Each
stage passes over some of these: what is not there is reported, unless it is on the way of the
manifest, and the texts of modules are read whatever their bytes are.
-/

set_option autoImplicit false

namespace NodeSchema

open Rust

variable {fault : Fault}

/-! ## Files -/

namespace FileTree

/-- Why the text of a file cannot be had: its path cannot be asked for, the file cannot be read, or
its bytes are no text. -/
inductive Withholds (t : FileTree) (p : Path) : Fault → Prop
  | path (hpath : isAskable p = false) : Withholds t p .badValue
  | file {fault : FileFault} (hpath : isAskable p = true) (h : t.read p = .error fault) :
      Withholds t p (.file fault)
  | bytes {bytes : List UInt8} (hpath : isAskable p = true) (hread : t.read p = .ok bytes)
      (h : Text.decode? bytes = none) : Withholds t p .notUtf8

theorem readText_eq_error_iff {t : FileTree} {p : Path} {f : Failure} :
    t.readText p = .error f ↔ ∃ fault, f = .unreported fault ∧ t.Withholds p fault := by
  rw [readText]
  constructor
  · intro h
    split at h
    · next hpath =>
      split at h
      · next hread => exact ⟨_, (Except.error.inj h).symm, .file hpath hread⟩
      · next bytes hread =>
        split at h
        · cases h
        · next hdecode =>
          rw [Text.readText?, Option.map_eq_none_iff] at hdecode
          exact ⟨_, (Except.error.inj h).symm, .bytes hpath hread hdecode⟩
    · next hpath =>
      exact ⟨_, (Except.error.inj h).symm, .path ((Bool.not_eq_true _).mp hpath)⟩
  · rintro ⟨fault, rfl, h⟩
    cases h with
    | path hpath => rw [hpath, if_neg Bool.false_ne_true]
    | file hpath hread =>
      rw [if_pos hpath, hread]
    | bytes hpath hread hdecode =>
      rw [if_pos hpath, hread]
      dsimp only
      rw [Text.readText?, hdecode]
      rfl

end FileTree

/-! ## The configuration -/

theorem Path.mem_of_mem_normalParts {name : String} {names : List String}
    (h : name ∈ normalParts [] names) : name ∈ names := by
  have hmem (before : List String) (h : name ∈ normalParts before names) :
      name ∈ before ∨ name ∈ names := by
    clear * - h
    induction names generalizing before with
    | nil => exact .inl (List.mem_reverse.mp h)
    | cons n names ih =>
      rw [normalParts] at h
      split at h
      · exact (ih before.tail h).imp List.mem_of_mem_tail (List.mem_cons_of_mem n)
      · rcases ih (n :: before) h with h | h
        · exact (List.mem_cons.mp h).elim (fun h ↦ .inr (h ▸ List.mem_cons_self)) .inl
        · exact .inr (List.mem_cons_of_mem n h)
  exact (hmem [] h).resolve_left List.not_mem_nil

namespace Config

/-- A value under one of the names has no text, as far as `fits` asks. -/
def LacksText (fits : Yaml.Value → Bool) (es : List (Yaml.Value × Yaml.Value))
    (names : List String) : Prop :=
  ∃ name ∈ names, ∃ v, Yaml.Value.find? es name = some v ∧ fits v = false

/-- A number that a configuration needs the text of has more digits than a text may have.  It is a
setting, an item of a setting, or stands in the mapping of features; what comes after that mapping
is looked at if it is one. -/
inductive HasLongNumber (standard : Table String) (es : List (Yaml.Value × Yaml.Value)) : Prop
  | paths (h : LacksText Yaml.Value.fits (sectionOf es "paths")
      ["crate_root", "token_file", "manifest", "output"])
  | version (h : LacksText Yaml.Value.fits es ["version"])
  | crawl (h : LacksText Yaml.Value.itemsFit (sectionOf es "crawl")
      ["ignored_modules", "extra_types"])
  | forced {ms : List (Yaml.Value × Yaml.Value)}
      (hfind : Yaml.Value.find? (sectionOf es "crawl") "module_features" = some (.mapping ms))
      (h : Yaml.Value.arePairsShowable ms = false)
  | types {forced : Table String}
      (hforced : forcedOf (sectionOf es "crawl") standard = .ok forced)
      (h : LacksText Yaml.Value.itemsFit (sectionOf es "types") ["external", "std"])

theorem haveTexts_bind_eq_unreported_iff {α : Type} {fits : Yaml.Value → Bool}
    {es : List (Yaml.Value × Yaml.Value)} {names : List String} {f : Unit → Except Failure α} :
    (haveTexts fits es names >>= f) = .error (.unreported fault) ↔
      fault = .badValue ∧ LacksText fits es names ∨
        ¬ LacksText fits es names ∧ f () = .error (.unreported fault) := by
  have hlacks : LacksText fits es names ↔
      ¬ (names.all fun name ↦ (Yaml.Value.find? es name).all fits) = true := by
    simp [LacksText, Option.all_eq_true]
  rw [hlacks, not_not, haveTexts]
  split
  · next hall =>
    exact ⟨fun h ↦ .inr ⟨hall, h⟩, fun h ↦ h.elim (fun h ↦ absurd hall h.2) And.right⟩
  · next hall =>
    refine ⟨fun h ↦ .inl ⟨(by cases h; rfl), hall⟩, fun h ↦ ?_⟩
    obtain ⟨rfl, -⟩ := h.resolve_right fun h ↦ hall h.1
    rfl

theorem forcedOf_eq_unreported_iff {es : List (Yaml.Value × Yaml.Value)}
    {standard : Table String} :
    forcedOf es standard = .error (.unreported fault) ↔ fault = .badValue ∧
      ∃ ms, Yaml.Value.find? es "module_features" = some (.mapping ms) ∧
        Yaml.Value.arePairsShowable ms = false := by
  rw [forcedOf]
  generalize Yaml.Value.find? es "module_features" = found
  rcases found with _ | v
  · exact ⟨fun h ↦ (by cases h), fun h ↦ (by simp at h)⟩
  cases v with
  | mapping ms =>
    dsimp only
    split
    · next hshown =>
      refine ⟨fun h ↦ (by cases h), ?_⟩
      rintro ⟨-, ms', ⟨⟩, hms'⟩
      exact absurd (hshown.symm.trans hms') (by decide)
    · next hshown =>
      exact ⟨fun h ↦ ⟨(by cases h; rfl), ms, rfl, (Bool.not_eq_true _).mp hshown⟩,
        fun h ↦ by rw [h.1]⟩
  | _ => exact ⟨fun h ↦ (by cases h), fun h ↦ (by simp at h)⟩

/-- **The entries of a configuration meet a fault exactly at a long number.** -/
theorem ofEntries_eq_unreported_iff {root : Path} {es : List (Yaml.Value × Yaml.Value)} :
    ofEntries root es = .error (.unreported fault) ↔
      fault = .badValue ∧ HasLongNumber (default root).crawl.forced es := by
  rw [ofEntries, haveTexts_bind_eq_unreported_iff, haveTexts_bind_eq_unreported_iff,
    haveTexts_bind_eq_unreported_iff, bind_eq_error, forcedOf_eq_unreported_iff]
  simp only [haveTexts_bind_eq_unreported_iff]
  constructor
  · rintro (⟨rfl, h⟩ | ⟨-, ⟨rfl, h⟩ | ⟨-, ⟨rfl, h⟩ | ⟨-, ⟨rfl, ms, hfind, h⟩ | ⟨forced, hforced,
      ⟨rfl, h⟩ | ⟨-, h⟩⟩⟩⟩⟩)
    · exact ⟨rfl, .paths h⟩
    · exact ⟨rfl, .version h⟩
    · exact ⟨rfl, .crawl h⟩
    · exact ⟨rfl, .forced hfind h⟩
    · exact ⟨rfl, .types hforced h⟩
    · cases h
  · rintro ⟨rfl, h⟩
    -- A number that is met first is the fault, whatever comes after it.
    by_cases hpaths : LacksText Yaml.Value.fits (sectionOf es "paths")
        ["crate_root", "token_file", "manifest", "output"]
    · exact .inl ⟨rfl, hpaths⟩
    refine .inr ⟨hpaths, ?_⟩
    by_cases hversion : LacksText Yaml.Value.fits es ["version"]
    · exact .inl ⟨rfl, hversion⟩
    refine .inr ⟨hversion, ?_⟩
    by_cases hcrawl : LacksText Yaml.Value.itemsFit (sectionOf es "crawl")
        ["ignored_modules", "extra_types"]
    · exact .inl ⟨rfl, hcrawl⟩
    refine .inr ⟨hcrawl, ?_⟩
    cases h with
    | paths h => exact absurd h hpaths
    | version h => exact absurd h hversion
    | crawl h => exact absurd h hcrawl
    | forced hfind h => exact .inl ⟨rfl, _, hfind, h⟩
    | types hforced h => exact .inr ⟨_, hforced, .inl ⟨rfl, h⟩⟩

/-- A mapping without entries holds no number. -/
theorem not_hasLongNumber_nil (standard : Table String) : ¬ HasLongNumber standard [] := by
  have hlacks (fits : Yaml.Value → Bool) (names : List String) : ¬ LacksText fits [] names := by
    rintro ⟨name, -, v, hv, -⟩
    cases hv
  intro h
  cases h with
  | paths h | version h | crawl h => exact hlacks _ _ h
  | forced hfind _ => cases hfind
  | types _ h => exact hlacks _ _ h

theorem ofValue_eq_unreported_iff {root : Path} {v : Yaml.Value} :
    ofValue root v = .error (.unreported fault) ↔
      fault = .badValue ∧ HasLongNumber (default root).crawl.forced v.entries := by
  have hnone {r : Except Failure Config} (hr : ∀ f, r ≠ .error (.unreported f))
      (hentries : v.entries = []) : r = .error (.unreported fault) ↔
        fault = .badValue ∧ HasLongNumber (default root).crawl.forced v.entries := by
    rw [hentries]
    exact ⟨fun h ↦ absurd h (hr fault), fun h ↦ absurd h.2 (not_hasLongNumber_nil _)⟩
  rw [ofValue.eq_def]
  split
  · cases v with
    | mapping es => exact ofEntries_eq_unreported_iff
    | _ => exact hnone (by simp) rfl
  · next hnothing =>
    exact hnone (by simp) (Yaml.Value.entries_eq_nil (Bool.eq_false_iff.mpr hnothing))

/-- The name of the configuration can always be asked for. -/
theorem isAskable_fileAt {p : Path} (h : FileTree.isAskable p = true) (tree : FileTree) :
    FileTree.isAskable (fileAt tree p) = true := by
  rw [FileTree.isAskable, List.all_eq_true] at h ⊢
  intro name hname
  rw [fileAt] at hname
  have hjoined {parts : List String} (hparts : parts ⊆ p.parts)
      (hname : name ∈ parts ++ [Failure.configName]) :
      (!name.toList.contains (Char.ofNat 0)) = true := by
    rcases List.mem_append.mp hname with hname | hname
    · exact h name (hparts hname)
    · rw [List.mem_singleton.mp hname]
      decide
  split at hname
  · exact hjoined (List.Subset.refl _) (Path.mem_of_mem_normalParts hname)
  · split at hname
    · exact h name (Path.mem_of_mem_normalParts hname)
    · exact hjoined (List.dropLast_subset _) (Path.mem_of_mem_normalParts hname)

section DocumentReader

variable [Yaml.DocumentReader]

/-- The reader of configurations stops at a fault, or reads a long number. -/
def TripsOverText (root : Path) (text : List Char) (fault : Fault) : Prop :=
  text.all Text.isBlank = false ∧
    (Yaml.DocumentReader.load text = .error (.fault fault) ∨
      fault = .badValue ∧ ∃ v, Yaml.DocumentReader.load text = .ok v ∧
        HasLongNumber (default root).crawl.forced v.entries)

theorem ofText_eq_unreported_iff {root : Path} {text : List Char} :
    ofText root text = .error (.unreported fault) ↔ TripsOverText root text fault := by
  rw [ofText, TripsOverText]
  split
  · next hblank =>
    rw [hblank]
    exact ⟨fun h ↦ (by cases h), fun h ↦ (by cases h.1)⟩
  · next hblank =>
    rw [Bool.not_eq_true] at hblank
    simp only [hblank, true_and]
    cases Yaml.DocumentReader.load text with
    | ok v => simp [ofValue_eq_unreported_iff]
    | error r =>
      cases r with
      | malformed => simp
      | fault f => simp

/-- What stops the extraction of the crate that a path leads to before it begins: the path cannot be
asked for, the text of the configuration cannot be had, or it is read with a fault. -/
inductive TripsOver (tree : FileTree) (p : Path) : Fault → Prop
  | path (hpath : FileTree.isAskable p = false) : TripsOver tree p .badValue
  | file {fault : Fault} (hpath : FileTree.isAskable p = true) (hcrate : tree.has p = true)
      (hfile : tree.has (fileAt tree p) = true) (h : tree.Withholds (fileAt tree p) fault) :
      TripsOver tree p fault
  | text {text : List Char} {fault : Fault} (hpath : FileTree.isAskable p = true)
      (hcrate : tree.has p = true) (hfile : tree.has (fileAt tree p) = true)
      (hread : tree.readText (fileAt tree p) = .ok text)
      (h : TripsOverText (fileAt tree p).parent text fault) : TripsOver tree p fault

/-- **When a configuration cannot be loaded for a fault.** -/
theorem load_eq_unreported_iff {tree : FileTree} {p : Path}
    (hpath : FileTree.isAskable p = true) (hcrate : tree.has p = true) :
    load tree p = .error (.unreported fault) ↔ TripsOver tree p fault := by
  rw [load, isAskable_fileAt hpath tree, Bool.not_true, if_neg Bool.false_ne_true]
  split
  · next hfile =>
    rw [bind_eq_error, FileTree.readText_eq_error_iff]
    constructor
    · rintro (⟨fault', heq, h⟩ | ⟨text, hread, h⟩)
      · cases heq
        exact .file hpath hcrate hfile h
      · exact .text hpath hcrate hfile hread (ofText_eq_unreported_iff.mp h)
    · intro h
      cases h with
      | path hpath' => exact absurd (hpath.symm.trans hpath') (by decide)
      | file _ _ _ h => exact .inl ⟨fault, rfl, h⟩
      | text _ _ _ hread h => exact .inr ⟨_, hread, ofText_eq_unreported_iff.mpr h⟩
  · next hfile =>
    constructor
    · intro h
      cases h
    · intro h
      cases h with
      | path hpath' => exact absurd (hpath.symm.trans hpath') (by decide)
      | file _ _ hfile' _ => exact absurd hfile' hfile
      | text _ _ hfile' _ _ => exact absurd hfile' hfile

end DocumentReader

end Config

theorem Extraction.ofPath_eq_unreported_iff [Yaml.DocumentReader] {tree : FileTree} {p : Path} :
    ofPath tree p = .error (.unreported fault) ↔ Config.TripsOver tree p.normal fault := by
  rw [ofPath]
  split
  · next hpath =>
    rw [Bool.not_eq_true'] at hpath
    constructor
    · intro h
      cases h
      exact .path hpath
    · intro h
      cases h with
      | path _ => rfl
      | file hpath' _ _ _ => exact absurd (hpath'.symm.trans hpath) (by decide)
      | text hpath' _ _ _ _ => exact absurd (hpath'.symm.trans hpath) (by decide)
  · next hpath =>
    rw [Bool.not_eq_true', Bool.not_eq_false] at hpath
    split
    · next hcrate => rw [map_eq_error, Config.load_eq_unreported_iff hpath hcrate]
    · next hcrate =>
      constructor
      · intro h
        cases h
      · intro h
        cases h with
        | path hpath' => exact absurd (hpath.symm.trans hpath') (by decide)
        | file _ hcrate' _ _ => exact absurd hcrate' hcrate
        | text _ hcrate' _ _ _ => exact absurd hcrate' hcrate

/-! ## The crawl -/

namespace Crate

variable {c : Crate} {path : Path} {source : Source} {gates : List Gate} {isRoot : Bool}
  {l : Lookup}

theorem fault_of_source (h : c.source path = .error (.unreported fault)) :
    fault = .badValue ∧ FileTree.isAskable (c.directory.join path) = false := by
  rw [Crate.source] at h
  split at h
  · split at h
    · cases h
    · cases h
  · next hpath =>
    cases h
    exact ⟨rfl, (Bool.not_eq_true _).mp hpath⟩

variable [FileParser]

/-- What is rebuilt from an item that calls a macro nests too deep for the parser. -/
def CallsTooDeep (source : Source) (i : Attributed Item) : Prop :=
  ∃ call, i.item.body = .macroCall call ∧
    Declaration.recognize source call = .error (.unreported .endless)

/-- Visiting an item meets no fault but those of the file that it names, unless what is rebuilt from
it nests too deep. -/
theorem fault_of_visit {load : Loader} {i : Attributed Item}
    (h : (c.visit load source path gates isRoot l i).result = .error (.unreported fault)) :
    (∃ child, c.NamesFile source path i child ∧
      ∃ gates, (load child gates l).result = .error (.unreported fault)) ∨
    (fault = .endless ∧ CallsTooDeep source i) := by
  rw [visit] at h
  split at h
  · next hbody =>
    dsimp only at h
    split at h
    · rw [Logged.result_bind] at h
      cases h
    · next hignored =>
      rw [Logged.result_bind, bind_eq_error] at h
      rcases h with h | ⟨file, hfile, h⟩
      · refine absurd h (Reports.map ?_ _ fault)
        exact Attribute.reports_path source i.attributes
      · exact .inl ⟨_, ⟨hbody, fun hmem ↦ hignored (List.contains_iff_mem.mpr hmem), file, hfile,
          rfl⟩, _, h⟩
  · next call hbody =>
    rw [Logged.result_bind, bind_eq_error] at h
    rcases h with h | ⟨d, -, h⟩
    · obtain rfl := Declaration.reportsBut_recognize source call fault h
      exact .inr ⟨rfl, call, hbody, h⟩
    · cases d with
      | none => cases h
      | some d => exact absurd h (reports_record l d _ fault)
  · dsimp only at h
    split at h
    · rw [Logged.result_bind, bind_eq_error] at h
      rcases h with h | ⟨d, -, h⟩
      · exact absurd h (Declaration.reports_ofStruct _ _ fault)
      · exact absurd h (reports_record l d _ fault)
    · cases h
  · split at h
    · cases h
    · cases h
  · cases h

theorem fault_of_visitAll {load : Loader} {items : List (Attributed Item)}
    (h : (c.visitAll load source path gates isRoot l items).result =
      .error (.unreported fault)) :
    ∃ i ∈ items, (∃ child, c.NamesFile source path i child ∧
      ∃ gates l, (load child gates l).result = .error (.unreported fault)) ∨
        (fault = .endless ∧ CallsTooDeep source i) := by
  induction items generalizing l with
  | nil => cases h
  | cons i items ih =>
    rw [visitAll, Logged.result_bind, bind_eq_error] at h
    rcases h with h | ⟨l', -, h⟩
    · refine ⟨i, List.mem_cons_self, (fault_of_visit h).imp_left ?_⟩
      rintro ⟨child, hchild, gates', h⟩
      exact ⟨child, hchild, gates', l, h⟩
    · obtain ⟨i', hi', hchild⟩ := ih h
      exact ⟨i', List.mem_cons_of_mem i hi', hchild⟩

/-- What stops the reading of one file of a crate: its path cannot be asked for, or its text or what
is rebuilt from a call in it nests too deep for the parser. -/
inductive TripsIn (c : Crate) (path : Path) : Fault → Prop
  | path (hpath : FileTree.isAskable (c.directory.join path) = false) : TripsIn c path .badValue
  | text {source : Source} (hsource : c.source path = .ok source) (h : IsTooDeep source.bytes) :
      TripsIn c path .endless
  | call {source : Source} {items : List (Attributed Item)} {i : Attributed Item}
      (hholds : c.Holds path source items) (hi : i ∈ items) (h : CallsTooDeep source i) :
      TripsIn c path .endless

/-- What a crawl trips over: something in a file of the crate, or a file that includes itself. -/
inductive TripsOver (c : Crate) (root : Path) : Fault → Prop
  | file {path : Path} {fault : Fault} (hreachable : c.Reachable root path)
      (h : c.TripsIn path fault) : TripsOver c root fault
  | endless (h : ¬ c.IsAcyclic root) : TripsOver c root .endless

/-- A file that is loaded meets a fault in a file below it, or is too deep for what lies below
it. -/
theorem fault_of_load {n : Nat}
    (h : (c.load n isRoot path gates l).result = .error (.unreported fault)) :
    (∃ p, c.Reachable path p ∧ c.TripsIn p fault) ∨ (fault = .endless ∧ c.Descends n path) := by
  induction n generalizing isRoot path gates l with
  | zero =>
    cases h
    exact .inr ⟨rfl, trivial⟩
  | succ n ih =>
    rw [load, Logged.result_bind, bind_eq_error] at h
    rcases h with h | ⟨-, -, h⟩
    · cases h
    rw [Logged.result_bind, bind_eq_error] at h
    rcases h with h | ⟨source, hsource, h⟩
    · obtain ⟨rfl, hpath⟩ := fault_of_source h
      exact .inl ⟨path, .refl, .path hpath⟩
    rw [Logged.result_bind, bind_eq_error] at h
    rcases h with h | ⟨items, hitems, h⟩
    · obtain ⟨rfl, hdeep⟩ := source.reportsBut_items fault h
      exact .inl ⟨path, .refl, .text hsource hdeep⟩
    obtain ⟨i, hi, ⟨child, hchild, gates', l', h⟩ | ⟨rfl, hcall⟩⟩ := fault_of_visitAll h
    · have himports : c.Imports path child := ⟨source, items, i, ⟨hsource, hitems⟩, hi, hchild⟩
      rcases ih h with ⟨p, hreachable, hp⟩ | ⟨rfl, hdescends⟩
      · exact .inl ⟨p, .head himports hreachable, hp⟩
      · exact .inr ⟨rfl, child, himports, hdescends⟩
    · exact .inl ⟨path, .refl, .call ⟨hsource, hitems⟩ hi hcall⟩

/-- **A crawl ends with a fault for one of few reasons.** -/
theorem tripsOver_of_crawl {root : Path}
    (h : (c.crawl root).result = .error (.unreported fault)) : c.TripsOver root fault := by
  rw [crawl, Logged.result_bind, bind_eq_error] at h
  rcases h with h | ⟨l, -, h⟩
  · rcases fault_of_load h with ⟨p, hreachable, hp⟩ | ⟨rfl, hdescends⟩
    · exact .file hreachable hp
    · exact .endless fun hacyclic ↦ not_descends_of_isAcyclic hacyclic hdescends
  · cases h

end Crate

/-! ## The manifest -/

namespace Manifest

variable [Toml.DocumentReader]

/-- What stops the reading of a manifest: its text cannot be had though it is there, or the reader
stops at a fault. -/
inductive TripsOver (tree : FileTree) (path : Path) : Fault → Prop
  | file {fault : Fault} (h : tree.Withholds path fault) (hthere : fault ≠ .file .missing) :
      TripsOver tree path fault
  | text {text : List Char} {fault : Fault} (hread : tree.readText path = .ok text)
      (h : Toml.DocumentReader.load text = .error (.fault fault)) : TripsOver tree path fault

theorem versionOf_eq_unreported_iff {path : String} {text : List Char} :
    versionOf path text = .error (.unreported fault) ↔
      Toml.DocumentReader.load text = .error (.fault fault) := by
  rw [versionOf]
  cases Toml.DocumentReader.load text with
  | error r =>
    cases r with
    | malformed => simp
    | fault f => simp
  | ok entries =>
    refine ⟨fun h ↦ ?_, fun h ↦ (by cases h)⟩
    dsimp only at h
    split at h
    · split at h <;> cases h
    · cases h

theorem version_eq_unreported_iff {tree : FileTree} {path : Path} :
    version tree path = .error (.unreported fault) ↔ TripsOver tree path fault := by
  rw [version]
  split
  · next heq =>
    constructor
    · intro h
      cases h
    · intro h
      cases h with
      | file h hthere =>
        have hread := FileTree.readText_eq_error_iff.mpr ⟨fault, rfl, h⟩
        cases heq.symm.trans hread
        exact absurd rfl hthere
      | text hread h => cases heq.symm.trans hread
  · next e hmissing heq =>
    constructor
    · intro h
      cases h
      obtain ⟨fault', hfault, h⟩ := FileTree.readText_eq_error_iff.mp heq
      cases hfault
      exact .file h fun hfault ↦ hmissing (by rw [hfault])
    · intro h
      cases h with
      | file h hthere =>
        cases heq.symm.trans (FileTree.readText_eq_error_iff.mpr ⟨fault, rfl, h⟩)
        rfl
      | text hread h => cases heq.symm.trans hread
  · next text heq =>
    rw [versionOf_eq_unreported_iff]
    constructor
    · exact .text heq
    · intro h
      cases h with
      | file h hthere => cases heq.symm.trans (FileTree.readText_eq_error_iff.mpr ⟨fault, rfl, h⟩)
      | text hread h =>
        cases heq.symm.trans hread
        exact h

end Manifest

/-! ## The extraction -/

namespace Extraction

variable {x : Extraction}

theorem reports_loadSpellings {path : String} {bytes : List UInt8} {text : List Char}
    (h : Text.readText? bytes = some text) : Reports (Spelling.load path bytes).result := by
  rw [Spelling.load, h]
  dsimp only
  rw [Logged.result_bind]
  refine Reports.bind (Spelling.reports_ofFile _) fun table ↦ ?_
  rw [Logged.result_bind]
  exact Reports.bind (reports_ok _) fun _ ↦ reports_ok _

theorem spellings_eq_unreported_iff : x.spellings.result = .error (.unreported fault) ↔
    x.tree.Withholds x.config.tokenFilePath fault ∧ ∀ f, fault ≠ .file f := by
  rw [spellings]
  split
  · next hpath =>
    cases hread : x.tree.read x.config.tokenFilePath with
    | error f =>
      constructor
      · intro h
        cases h
      · rintro ⟨h, hfault⟩
        cases h with
        | path hpath' => exact absurd (hpath.symm.trans hpath') (by decide)
        | file _ _ => exact absurd rfl (hfault _)
        | bytes _ hread' _ => cases hread.symm.trans hread'
    | ok bytes =>
      dsimp only
      cases hdecode : Text.decode? bytes with
      | none =>
        have hload : (Spelling.load (Path.ofString x.config.tokenFile).toString bytes).result =
            .error (.unreported .notUtf8) := by
          rw [Spelling.load, Text.readText?, hdecode]
          rfl
        rw [hload]
        constructor
        · intro h
          cases h
          exact ⟨.bytes hpath hread hdecode, fun f h ↦ by cases h⟩
        · rintro ⟨h, hfault⟩
          cases h with
          | path hpath' => exact absurd (hpath.symm.trans hpath') (by decide)
          | file _ _ => exact absurd rfl (hfault _)
          | bytes _ _ _ => rfl
      | some cs =>
        constructor
        · intro h
          exact absurd h (reports_loadSpellings (by rw [Text.readText?, hdecode]; rfl) fault)
        · rintro ⟨h, hfault⟩
          cases h with
          | path hpath' => exact absurd (hpath.symm.trans hpath') (by decide)
          | file _ _ => exact absurd rfl (hfault _)
          | bytes _ hread' hdecode' =>
            cases hread.symm.trans hread'
            cases hdecode.symm.trans hdecode'
  · next hpath =>
    rw [Bool.not_eq_true] at hpath
    constructor
    · intro h
      cases h
      exact ⟨.path hpath, fun f h ↦ by cases h⟩
    · rintro ⟨h, hfault⟩
      cases h with
      | path _ => rfl
      | file hpath' _ => exact absurd (hpath'.symm.trans hpath) (by decide)
      | bytes hpath' _ _ => exact absurd (hpath'.symm.trans hpath) (by decide)

variable [Toml.DocumentReader]

theorem version_eq_unreported_iff : x.version = .error (.unreported fault) ↔
    (∀ v ∈ x.config.version, v.isEmpty = true) ∧
      Manifest.TripsOver x.tree x.config.manifestPath fault := by
  rw [version]
  cases hversion : x.config.version with
  | none =>
    dsimp only
    rw [Manifest.version_eq_unreported_iff]
    exact ⟨fun h ↦ ⟨fun v hv ↦ (by cases hv), h⟩, fun h ↦ h.2⟩
  | some v =>
    dsimp only
    split
    · next hempty =>
      rw [Manifest.version_eq_unreported_iff]
      exact ⟨fun h ↦ ⟨fun v' hv' ↦ (by cases hv'; exact hempty), h⟩, fun h ↦ h.2⟩
    · next hempty => exact ⟨fun h ↦ (by cases h), fun h ↦ absurd (h.1 v rfl) hempty⟩

variable [FileParser]

/-- What stops an extraction, at its turn: the text of the spellings cannot be had though the file
can be read; the crawl ends with a fault; or the manifest that has to tell the version cannot be
read. -/
inductive TripsOver (x : Extraction) : Fault → Prop
  | spellings {fault : Fault} (h : x.tree.Withholds x.config.tokenFilePath fault)
      (hread : ∀ f, fault ≠ .file f) : TripsOver x fault
  | crawl {tokens : Table String} {fault : Fault} (htokens : x.spellings.result = .ok tokens)
      (hcrawl : (x.crate.crawl (.ofString x.config.crateRoot)).result =
        .error (.unreported fault))
      (h : x.crate.TripsOver (.ofString x.config.crateRoot) fault) : TripsOver x fault
  | manifest {tokens : Table String} {found : Lookup} {fault : Fault}
      (htokens : x.spellings.result = .ok tokens)
      (hfound : (x.crate.crawl (.ofString x.config.crateRoot)).result = .ok found)
      (hversion : ∀ v ∈ x.config.version, v.isEmpty = true)
      (h : Manifest.TripsOver x.tree x.config.manifestPath fault) : TripsOver x fault

/-- **When the text of a schema is not extracted for a fault.** -/
theorem text_eq_unreported_iff :
    x.text.result = .error (.unreported fault) ↔ x.TripsOver fault := by
  have hprint : x.text.result = .error (.unreported fault) ↔
      x.run.result = .error (.unreported fault) := by
    rw [text, Logged.result_bind, bind_eq_error]
    constructor
    · rintro (h | ⟨d, hd, h⟩)
      · exact h
      · rw [Logged.result_ofExcept, (isOrdered_of_run hd).print_eq] at h
        cases h
    · exact .inl
  rw [hprint, run, Logged.result_bind, Logged.result_tell]
  show (_ >>= _ : Logged Definitions).result = _ ↔ _
  rw [Logged.result_bind, bind_eq_error, spellings_eq_unreported_iff]
  simp only [Logged.result_bind, bind_eq_error, Logged.result_ofExcept]
  constructor
  · rintro (⟨h, hread⟩ | ⟨tokens, htokens, hcrawl | ⟨found, hfound, hversion | ⟨v, -, h⟩⟩⟩)
    · exact .spellings h hread
    · exact .crawl htokens hcrawl (Crate.tripsOver_of_crawl hcrawl)
    · obtain ⟨hversion, h⟩ := version_eq_unreported_iff.mp hversion
      exact .manifest htokens hfound hversion h
    · exact absurd h (found.reports_assemble tokens _ v fault)
  · intro h
    cases h with
    | spellings h hread => exact .inl ⟨h, hread⟩
    | crawl htokens hcrawl h => exact .inr ⟨_, htokens, .inl hcrawl⟩
    | manifest htokens hfound hversion h =>
      exact .inr ⟨_, htokens, .inr ⟨_, hfound,
        .inl (version_eq_unreported_iff.mpr ⟨hversion, h⟩)⟩⟩

end Extraction
end NodeSchema
