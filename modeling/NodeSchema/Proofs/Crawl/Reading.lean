import NodeSchema.Proofs.Crawl.Findings
import NodeSchema.Proofs.Crawl.Walk
import NodeSchema.Proofs.Feature.Merge
import NodeSchema.Proofs.FileTree
import NodeSchema.Proofs.Rust.Unplaced

/-!
# Two crawls side by side

What an item gives to a crawl is put together of what is recognised in it, of the file that it names
and of the gates above it.  So the items of two crates give the same if they agree in this
(`ActsAlike`, `alike_reads`), whatever else in their files differs.

Gates come in through what they come to alone (`Gate.resolve_add`), so two lists of gates that come
to the same are the same to everything below them (`resolve_moduleGates_congr`).
-/

set_option autoImplicit false

namespace NodeSchema

open Rust

/-! ## Files -/

namespace FileTree

/-- Two trees have the same directories, and files of the same places with related contents. -/
structure Matches (R : List UInt8 → List UInt8 → Prop) (t t' : FileTree) : Prop where
  directories : t.directories = t'.directories
  files : List.Forall₂ (fun f f' ↦ f.1 = f'.1 ∧ R f.2 f'.2) t.files t'.files

variable {t t' : FileTree} {R : List UInt8 → List UInt8 → Prop}

theorem Matches.file? (h : t.Matches R t') (place : List String) :
    Option.Rel R (t.file? place) (t'.file? place) := by
  rw [FileTree.file?, FileTree.file?]
  have hfiles := h.files
  generalize t.files = fs, t'.files = fs' at hfiles
  induction hfiles with
  | nil => exact .none
  | @cons f f' fs fs' hf _ ih =>
    rw [List.find?_cons, List.find?_cons, ← hf.1]
    cases decide (f.1 = place) with
    | true => exact .some hf.2
    | false => exact ih

theorem Matches.hasDirectory_eq (h : t.Matches R t') (place : List String) :
    t.hasDirectory place = t'.hasDirectory place := by
  rw [hasDirectory, hasDirectory, h.directories]

theorem Matches.isSome_file?_eq (h : t.Matches R t') (place : List String) :
    (t.file? place).isSome = (t'.file? place).isSome := by
  have hfile := h.file? place
  generalize t.file? place = file, t'.file? place = file' at hfile
  cases hfile with
  | none => rfl
  | some => rfl

theorem Matches.placeFrom_eq (h : t.Matches R t') (current names : List String) :
    t.placeFrom current names = t'.placeFrom current names := by
  induction names generalizing current with
  | nil => rfl
  | cons name rest ih =>
    rw [placeFrom, placeFrom, ih]
    cases rest with
    | nil => rfl
    | cons => simp only [h.hasDirectory_eq, h.isSome_file?_eq, ih]

end FileTree

/-- The file of a path can be read in both crates or in neither, and the contents are related. -/
theorem Crate.alike_source_of_matches {c c' : Crate} {R : List UInt8 → List UInt8 → Prop}
    (htree : c.tree.Matches R c'.tree) (hdirectory : c.directory = c'.directory) (path : Path) :
    Alike (fun source source' ↦ source.path = source'.path ∧ R source.bytes source'.bytes)
      (c.source path) (c'.source path) := by
  rw [source, source, hdirectory]
  split
  · have hplace := htree.placeFrom_eq [] (c'.directory.join path).parts
    rw [FileTree.read, FileTree.read, FileTree.place, FileTree.place, hplace]
    cases c'.tree.placeFrom [] (c'.directory.join path).parts with
    | error fault => exact .error
    | ok place =>
      dsimp only
      rw [htree.hasDirectory_eq]
      cases c'.tree.hasDirectory place with
      | true => exact .error
      | false =>
        have hfile := htree.file? place
        generalize c.tree.file? place = file, c'.tree.file? place = file' at hfile
        cases hfile with
        | none => exact .error
        | some hbytes => exact .ok ⟨rfl, hbytes⟩
  · exact .error

/-! ## Gates -/

namespace Crate

variable {c c' : Crate} {source source' : Source} {i i' : Attributed Item}
  {gates gates' : List Gate}

/-- A module whose feature is forced is gated by it, whatever is above and on the module. -/
theorem moduleGates_of_forced {s : CrawlSettings} {name feature : String}
    (h : s.forced.find? name = some feature) (gates : List Gate) (as : List Attribute) :
    moduleGates s gates name as = Gate.ofFeatures (.ofList [feature]) := by
  rw [moduleGates, h]

theorem moduleGates_of_free {s : CrawlSettings} {name : String} (h : s.forced.find? name = none)
    (gates : List Gate) (as : List Attribute) :
    moduleGates s gates name as = Gate.add gates as := by
  rw [moduleGates, h]

theorem resolve_moduleGates_congr (s : CrawlSettings) (name : String)
    (h : Gate.resolve gates = Gate.resolve gates') {as as' : List Attribute}
    (has : Cfg.ofAttributes as = Cfg.ofAttributes as') :
    Gate.resolve (moduleGates s gates name as) = Gate.resolve (moduleGates s gates' name as') := by
  cases hforced : s.forced.find? name with
  | some feature => rw [moduleGates_of_forced hforced, moduleGates_of_forced hforced]
  | none =>
    rw [moduleGates_of_free hforced, moduleGates_of_free hforced]
    exact Gate.resolve_add_congr h has

theorem declared_congr (d : Declaration) (h : Gate.resolve gates = Gate.resolve gates') :
    declared d gates = declared d gates' := by
  rw [declared, declared, h]

/-! ## The file of a module -/

theorem find?_unplaced (p : Attribute → Bool) (hp : ∀ a : Attribute, p a.unplaced = p a)
    (as : List Attribute) :
    (as.map Attribute.unplaced).find? p = (as.find? p).map Attribute.unplaced := by
  rw [List.find?_map]
  congr 2
  funext a
  exact hp a

/-- The file of a module is named by how its attributes are written. -/
theorem alike_moduleFile (name : String) {as as' : List Attribute}
    (h : as.map Attribute.unplaced = as'.map Attribute.unplaced) :
    Alike Eq (moduleFile source name as) (moduleFile source' name as') := by
  rw [moduleFile, moduleFile]
  refine Alike.map (R := Eq) ?_ (by rintro _ _ rfl; rfl)
  have hfind := congrArg (fun as ↦ as.find? fun a : Attribute ↦ a.name = "path") h
  rw [find?_unplaced _ (fun _ ↦ rfl), find?_unplaced _ (fun _ ↦ rfl)] at hfind
  rw [Attribute.path, Attribute.path]
  generalize as.find? _ = found, as'.find? _ = found' at hfind ⊢
  cases found with
  | none =>
    cases found' with
    | none => exact .ok rfl
    | some => cases hfind
  | some a =>
    cases found' with
    | none => cases hfind
    | some a' =>
      have hvalue := congrArg Attribute.value (Option.some.inj hfind)
      rw [Attribute.unplaced, Attribute.unplaced] at hvalue
      dsimp only at hvalue ⊢
      generalize a.value = value, a'.value = value' at hvalue
      cases value with
      | none =>
        cases value' with
        | none => exact .error
        | some => cases hvalue
      | some value =>
        cases value' with
        | none => cases hvalue
        | some value' =>
          cases value with
          | string text start =>
            cases value' with
            | string text' start' =>
              obtain rfl : text = text' := by
                rw [Option.map_some, Option.map_some] at hvalue
                exact (AttributeValue.string.inj (Option.some.inj hvalue)).1
              exact .ok rfl
            | other => cases hvalue
          | other =>
            cases value' with
            | string => cases hvalue
            | other => exact .error

/-! ## What an item gives -/

theorem gatingAttributes_of_isOther (h : i.item.body.IsOther) : gatingAttributes i = [] := by
  obtain ⟨attributes, body, name, isPublic, text, start⟩ := i
  cases body with
  | enum _ | expression _ | typeAlias _ | plain _ => rfl
  | module _ | struct _ | use _ | macroCall _ => cases h

theorem ofStruct_unplaced (ident : String) (body : StructBody) :
    Declaration.ofStruct ident body.unplaced = Declaration.ofStruct ident body := by
  cases body with
  | named fields =>
    show Except.ok _ = Except.ok _
    rw [Entry.items, List.filterMap_map, Entry.items]
    congr 4
    refine List.filterMap_congr fun e _ ↦ ?_
    cases e <;> rfl
  | positional | unit => rfl

variable [FileParser]

/-- Two items are the same to a crawl but for what gates their modules: they say the same apart from
places, name the same file, and the same is recognised in them. -/
structure ActsAlike (source source' : Source) (i i' : Attributed Item) : Prop where
  item : i.item.unplaced = i'.item.unplaced
  file : ∀ name,
    Alike Eq (moduleFile source name i.attributes) (moduleFile source' name i'.attributes)
  recognized : ∀ call call', i.item.body = .macroCall call → i'.item.body = .macroCall call' →
    Alike Eq (Declaration.recognize source call) (Declaration.recognize source' call')

theorem reads_of_isOther (h : i.item.body.IsOther)
    {find : Path → List Gate → Except Failure Findings} {path : Path} {isRoot : Bool} :
    c.reads find source path gates isRoot i = .ok .none := by
  obtain ⟨attributes, body, name, isPublic, text, start⟩ := i
  cases body with
  | enum _ | expression _ | typeAlias _ | plain _ => rfl
  | module _ | struct _ | use _ | macroCall _ => cases h

/-- **Items that are the same to a crawl give the same**, if the files that they name do, and if the
gates come to the same for what they declare. -/
theorem alike_reads {R : Findings → Findings → Prop} (hR : ∀ f, R f f)
    (hsettings : c.settings = c'.settings) (h : ActsAlike source source' i i')
    {find find' : Path → List Gate → Except Failure Findings} {path : Path} {isRoot : Bool}
    (hfind : ∀ child, c.NamesFile source path i child →
      Alike R (find child (moduleGates c.settings gates (nameOf i) i.attributes))
        (find' child (moduleGates c'.settings gates' (nameOf i') i'.attributes)))
    (hdeclared : ∀ d, c.Declares source i d →
      Gate.resolve (Gate.add gates (gatingAttributes i)) =
        Gate.resolve (Gate.add gates' (gatingAttributes i'))) :
    Alike R (c.reads find source path gates isRoot i)
      (c'.reads find' source' path gates' isRoot i') := by
  have hname : i.item.name = i'.item.name := congrArg (fun i ↦ i.name) h.item
  have hpublic : i.item.isPublic = i'.item.isPublic := congrArg (fun i ↦ i.isPublic) h.item
  have hbody : i.item.body.unplaced = i'.item.body.unplaced := congrArg (fun i ↦ i.body) h.item
  have hnone : Alike R (.ok .none) (.ok .none) := .ok (hR _)
  rcases ItemBody.unplaced_cases hbody with ⟨isInline, hb, hb'⟩ | ⟨body, body', hb, hb', hstruct⟩ |
    ⟨tree, hb, hb'⟩ | ⟨call, call', hb, hb'⟩ | ⟨hb, hb'⟩
  · cases isInline with
    | true =>
      rw [reads, reads, hb, hb']
      exact hnone
    | false =>
      rw [nameOf, nameOf] at hfind
      rw [reads, reads, hb, hb']
      dsimp only
      rw [hsettings, hname] at hfind ⊢
      split
      · exact hnone
      · next hignored =>
        refine (h.file _).bind_of_eq fun file file' hfile _ heq ↦ ?_
        subst heq
        refine hfind _ ⟨hb, fun hmem ↦ hignored (List.contains_iff_mem.mpr ?_), file, ?_, rfl⟩
        · rwa [hsettings, nameOf, hname] at hmem
        · rw [nameOf, hname, hfile]
  · rw [gatingAttributes, gatingAttributes, hb, hb'] at hdeclared
    rw [reads, reads, hsettings, hname, hb, hb']
    dsimp only
    split
    · next hextra =>
      rw [← ofStruct_unplaced _ body', ← hstruct, ofStruct_unplaced]
      refine (Alike.of_eq (R := Eq) (fun _ ↦ rfl) rfl).bind_of_eq fun d _ hd _ heq ↦ ?_
      subst heq
      have hdeclares : c.Declares source i d := by
        refine .struct hb ?_ ?_
        · rw [hsettings, nameOf, hname]
          exact List.contains_iff_mem.mp hextra
        · rw [nameOf, hname, hd]
      exact .of_eq hR (declared_congr d (hdeclared d hdeclares))
    · exact hnone
  · rw [reads, reads, hpublic, hb, hb']
    exact .of_eq hR rfl
  · rw [gatingAttributes, gatingAttributes, hb, hb'] at hdeclared
    rw [reads, reads, hb, hb']
    refine (h.recognized call call' hb hb').bind_of_eq fun recognized _ hrecognized _ heq ↦ ?_
    subst heq
    cases recognized with
    | none => exact hnone
    | some d => exact .of_eq hR (declared_congr d (hdeclared d (.macroCall hb hrecognized)))
  · rw [reads_of_isOther hb, reads_of_isOther hb']
    exact hnone

end Crate
end NodeSchema
