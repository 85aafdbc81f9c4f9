import Mathlib.Logic.Relation
import NodeSchema.Crawl
import NodeSchema.Proofs.Alias
import NodeSchema.Proofs.Result

/-!
# What a crawl passes

`Crate.load` reads a file and the files of the modules that it names, depth first, and stops when it
is too deep.  This file says without any bound on the depth what it passes, as a relation between a
file and the list of the declarations that are found from it on, in the order in which they come
(`Crate.Walk`).  A walk is a finite derivation, so there is none from a file that includes itself.

* `visit_cases` — everything that visiting one item can do;
* `walk_of_load` — the run: a file that is loaded has a walk, and what is recorded is what the walk
  finds, one declaration after the other.

Each declaration is found with the `mod` declarations above it, which carry the gates that it
inherits (`Crate.gatesOf`).
-/

set_option autoImplicit false

namespace NodeSchema
namespace Crate

open Rust

variable {c : Crate} {inherited : List Gate} {l l' l'' : Lookup}

/-! ## What items are to a crawl -/

/-- A `mod` declaration. -/
structure ModDeclaration where
  name : String
  attributes : List Attribute

/-- The name that an item is known by. -/
def nameOf (i : Attributed Item) : String := i.item.name.getD ""

/-- An item as `mod` declaration. -/
def modOf (i : Attributed Item) : ModDeclaration := ⟨nameOf i, i.attributes⟩

/-- An item of a file is a `mod` declaration that has its items in another file, and is not
passed over. -/
def NamesFile (c : Crate) (source : Source) (path : Path) (i : Attributed Item) (child : Path) :
    Prop :=
  i.item.body = .module false ∧ nameOf i ∉ c.settings.ignored ∧
    ∃ file, moduleFile source (nameOf i) i.attributes = .ok file ∧
      child = path.parent.join (.ofString file)

/-- The attributes that gate what an item declares: those of a plain struct do not. -/
def gatingAttributes (i : Attributed Item) : List Attribute :=
  match i.item.body with
  | .macroCall _ => i.attributes
  | _ => []

/-- The renames of a public import. -/
def renamesOf (i : Attributed Item) : List (String × String) :=
  match i.item.body with
  | .use tree => if i.item.isPublic then Alias.renames tree else []
  | _ => []

theorem NamesFile.body {source : Source} {path child : Path} {i : Attributed Item}
    (h : c.NamesFile source path i child) : i.item.body = .module false := h.1

theorem renamesOf_of_namesFile {source : Source} {path child : Path} {i : Attributed Item}
    (h : c.NamesFile source path i child) : renamesOf i = [] := by
  rw [renamesOf, h.body]

/-! ## Recording -/

/-- A declaration that was found: the `mod` declarations above it, from the root on, the text and
the item that it is from, and what it says. -/
structure Found where
  modules : List ModDeclaration
  source : Source
  item : Attributed Item
  declaration : Declaration

/-- The gates below `mod` declarations, under gates that are inherited. -/
def gatesOf (s : CrawlSettings) (inherited : List Gate) (chain : List ModDeclaration) :
    List Gate :=
  chain.foldl (fun gates m ↦ moduleGates s gates m.name m.attributes) inherited

theorem gatesOf_concat (s : CrawlSettings) (chain : List ModDeclaration) (m : ModDeclaration) :
    gatesOf s inherited (chain ++ [m]) =
      moduleGates s (gatesOf s inherited chain) m.name m.attributes := by
  rw [gatesOf, List.foldl_append]
  rfl

/-- The declaration that is recorded for one that was found. -/
def Found.recorded (s : CrawlSettings) (inherited : List Gate) (f : Found) :
    Except Failure Declaration := do
  let gate ← Gate.resolve (Gate.add (gatesOf s inherited f.modules) (gatingAttributes f.item))
  f.declaration.gated gate

/-- What was found before, after declarations and renames were entered. -/
structure Enters (c : Crate) (inherited : List Gate) (found : List Found)
    (renames : List (String × String)) (l l' : Lookup) : Prop where
  declarations : ∃ ds, List.Forall₂ (fun f d ↦ f.recorded c.settings inherited = .ok d) found ds ∧
    l'.declarations = l.declarations.insertAll (ds.map fun d ↦ (d.ident, d))
  aliases : ∀ name, l'.aliases.find? name =
    (Table.valuesOf name renames).getLast?.or (l.aliases.find? name)

theorem Enters.refl (l : Lookup) : c.Enters inherited [] [] l l :=
  ⟨⟨[], .nil, rfl⟩, fun _ ↦ rfl⟩

theorem Enters.trans {found found' : List Found} {renames renames' : List (String × String)}
    (h : c.Enters inherited found renames l l')
    (h' : c.Enters inherited found' renames' l' l'') :
    c.Enters inherited (found ++ found') (renames ++ renames') l l'' := by
  obtain ⟨ds, hds, hdeclarations⟩ := h.declarations
  obtain ⟨ds', hds', hdeclarations'⟩ := h'.declarations
  refine ⟨⟨ds ++ ds', List.rel_append hds hds', ?_⟩, fun name ↦ ?_⟩
  · rw [hdeclarations', hdeclarations, List.map_append, Table.insertAll, Table.insertAll,
      Table.insertAll, List.foldl_append]
  · rw [h'.aliases, h.aliases, Table.valuesOf, Table.valuesOf, Table.valuesOf,
      List.filter_append, List.map_append, List.getLast?_append, Option.or_assoc]

theorem record_eq_ok {d : Declaration} {gates : List Gate}
    (h : (record l d gates).result = .ok l') :
    ∃ gate d', Gate.resolve gates = .ok gate ∧ d.gated gate = .ok d' ∧
      l' = { l with declarations := l.declarations.insert d'.ident d' } := by
  obtain ⟨gate, hgate, h⟩ := Logged.result_bind_eq_ok.mp h
  obtain ⟨d', hd', h⟩ := Logged.result_bind_eq_ok.mp h
  refine ⟨gate, d', hgate, hd', ?_⟩
  split at h
  · obtain ⟨-, -, h⟩ := Logged.result_bind_eq_ok.mp h
    exact (Except.ok.inj h).symm
  · exact (Except.ok.inj h).symm

/-- Recording a declaration enters it. -/
theorem enters_of_record {f : Found}
    (h : (record l f.declaration (Gate.add (gatesOf c.settings inherited f.modules)
      (gatingAttributes f.item))).result = .ok l') : c.Enters inherited [f] [] l l' := by
  obtain ⟨gate, d, hgate, hd, rfl⟩ := record_eq_ok h
  have hrecorded : f.recorded c.settings inherited = .ok d := bind_eq_ok.mpr ⟨gate, hgate, hd⟩
  exact ⟨⟨[d], .cons hrecorded .nil, rfl⟩, fun _ ↦ rfl⟩

/-! ## Walks -/

/-- An item without meaning for a crawl changes nothing. -/
theorem enters_of_skipped {i : Attributed Item} {isRoot : Bool} (hrenames : renamesOf i = []) :
    c.Enters inherited [] (if isRoot then renamesOf i else []) l l := by
  rw [hrenames, ite_self]
  exact .refl l

variable [FileParser]

/-- An item is the call of a macro that declares a node, or one of the plain structs that do. -/
inductive Declares (c : Crate) (source : Source) (i : Attributed Item) (d : Declaration) : Prop
  | macroCall {call : MacroCall} (hbody : i.item.body = .macroCall call)
      (h : Declaration.recognize source call = .ok (some d)) : Declares c source i d
  | struct {body : StructBody} (hbody : i.item.body = .struct body)
      (hextra : nameOf i ∈ c.settings.extra)
      (h : Declaration.ofStruct (nameOf i) body = .ok d) : Declares c source i d

/-- The file of a path has the given source text and items. -/
def Holds (c : Crate) (path : Path) (source : Source) (items : List (Attributed Item)) : Prop :=
  c.source path = .ok source ∧ source.items = .ok items

/-- What is found from items of a file on, in depth-first order; `chain` holds the `mod`
declarations above the file. -/
inductive Walk (c : Crate) :
    List ModDeclaration → Path → Source → List (Attributed Item) → List Found → Prop
  | nil {chain : List ModDeclaration} {path : Path} {source : Source} :
      Walk c chain path source [] []
  | module {chain : List ModDeclaration} {path child : Path} {source source' : Source}
      {i : Attributed Item} {is items : List (Attributed Item)} {inner rest : List Found}
      (hnames : c.NamesFile source path i child) (hholds : c.Holds child source' items)
      (hinner : Walk c (chain ++ [modOf i]) child source' items inner)
      (hrest : Walk c chain path source is rest) :
      Walk c chain path source (i :: is) (inner ++ rest)
  | declaration {chain : List ModDeclaration} {path : Path} {source : Source}
      {i : Attributed Item} {is : List (Attributed Item)} {d : Declaration} {rest : List Found}
      (hdeclares : c.Declares source i d) (hrest : Walk c chain path source is rest) :
      Walk c chain path source (i :: is) (⟨chain, source, i, d⟩ :: rest)
  | other {chain : List ModDeclaration} {path : Path} {source : Source}
      {i : Attributed Item} {is : List (Attributed Item)} {rest : List Found}
      (hnames : ∀ child, ¬ c.NamesFile source path i child)
      (hdeclares : ∀ d, ¬ c.Declares source i d) (hrest : Walk c chain path source is rest) :
      Walk c chain path source (i :: is) rest

/-! ## One item -/

theorem Declares.body {source : Source} {i : Attributed Item} {d : Declaration}
    (h : c.Declares source i d) :
    (∃ call, i.item.body = .macroCall call) ∨ ∃ body, i.item.body = .struct body := by
  cases h with
  | macroCall hbody => exact .inl ⟨_, hbody⟩
  | struct hbody => exact .inr ⟨_, hbody⟩

theorem renamesOf_of_declares {source : Source} {i : Attributed Item} {d : Declaration}
    (h : c.Declares source i d) : renamesOf i = [] := by
  rcases h.body with ⟨call, hbody⟩ | ⟨body, hbody⟩
  · rw [renamesOf, hbody]
  · rw [renamesOf, hbody]

section Visit

variable {load : Loader} {chain : List ModDeclaration} {source : Source} {path : Path}
  {isRoot : Bool} {i : Attributed Item}

theorem visit_module (hbody : i.item.body = .module false) {gates : List Gate}
    (h : (c.visit load source path gates isRoot l i).result = .ok l') :
    (∃ child, c.NamesFile source path i child ∧
      (load child (moduleGates c.settings gates (nameOf i) i.attributes) l).result = .ok l') ∨
    ((∀ child, ¬ c.NamesFile source path i child) ∧ l' = l) := by
  rw [visit, hbody] at h
  dsimp only at h
  split at h
  · next hignored =>
    obtain ⟨-, -, h⟩ := Logged.result_bind_eq_ok.mp h
    refine .inr ⟨fun child hnames ↦ ?_, (Except.ok.inj h).symm⟩
    exact hnames.2.1 (List.contains_iff_mem.mp hignored)
  · next hignored =>
    obtain ⟨file, hfile, h⟩ := Logged.result_bind_eq_ok.mp h
    refine .inl ⟨path.parent.join (.ofString file), ⟨hbody, fun hmem ↦ ?_, file, hfile, rfl⟩, h⟩
    exact hignored (List.contains_iff_mem.mpr hmem)

theorem visit_macroCall {call : MacroCall} (hbody : i.item.body = .macroCall call)
    {gates : List Gate} (h : (c.visit load source path gates isRoot l i).result = .ok l') :
    (∃ d, c.Declares source i d ∧
      (record l d (Gate.add gates (gatingAttributes i))).result = .ok l') ∨
    ((∀ d, ¬ c.Declares source i d) ∧ l' = l) := by
  rw [visit, hbody] at h
  obtain ⟨recognized, hrecognized, h⟩ := Logged.result_bind_eq_ok.mp h
  rw [Logged.result_ofExcept] at hrecognized
  cases recognized with
  | some d =>
    refine .inl ⟨d, .macroCall hbody hrecognized, ?_⟩
    rw [gatingAttributes, hbody]
    exact h
  | none =>
    refine .inr ⟨fun d hdeclares ↦ ?_, (Except.ok.inj h).symm⟩
    cases hdeclares with
    | macroCall hcall hd =>
      rw [hbody] at hcall
      cases hcall
      rw [hrecognized] at hd
      cases hd
    | struct hstruct =>
      rw [hbody] at hstruct
      cases hstruct

theorem visit_struct {body : StructBody} (hbody : i.item.body = .struct body)
    {gates : List Gate} (h : (c.visit load source path gates isRoot l i).result = .ok l') :
    (∃ d, c.Declares source i d ∧
      (record l d (Gate.add gates (gatingAttributes i))).result = .ok l') ∨
    ((∀ d, ¬ c.Declares source i d) ∧ l' = l) := by
  rw [visit, hbody] at h
  dsimp only at h
  split at h
  · next hextra =>
    obtain ⟨d, hd, h⟩ := Logged.result_bind_eq_ok.mp h
    refine .inl ⟨d, .struct hbody (List.contains_iff_mem.mp hextra) hd, ?_⟩
    rw [gatingAttributes, hbody]
    exact h
  · next hextra =>
    refine .inr ⟨fun d hdeclares ↦ ?_, (Except.ok.inj h).symm⟩
    cases hdeclares with
    | macroCall hcall =>
      rw [hbody] at hcall
      cases hcall
    | struct _ hmem => exact hextra (List.contains_iff_mem.mpr hmem)

theorem visit_use {tree : UseTree} (hbody : i.item.body = .use tree) {gates : List Gate}
    (h : (c.visit load source path gates isRoot l i).result = .ok l') :
    c.Enters inherited [] (if isRoot then renamesOf i else []) l l' := by
  rw [visit, hbody] at h
  dsimp only at h
  split at h
  · next hpublic =>
    rw [Bool.and_eq_true] at hpublic
    cases h
    refine ⟨⟨[], .nil, rfl⟩, fun name ↦ ?_⟩
    rw [Alias.find?_insertAll_ofUse, if_pos hpublic.1, renamesOf, hbody]
    dsimp only
    rw [if_pos hpublic.2]
  · next hpublic =>
    have hrenames : (if isRoot then renamesOf i else []) = [] := by
      rw [renamesOf, hbody]
      cases isRoot with
      | true => exact if_neg hpublic
      | false => rfl
    cases h
    rw [hrenames]
    exact .refl l

/-- **What visiting an item can do**: it loads the file that the item names, or records what the
item declares, or enters the renames of a root import. -/
theorem visit_cases
    (h : (c.visit load source path (gatesOf c.settings inherited chain) isRoot l i).result =
      .ok l') :
    (∃ child, c.NamesFile source path i child ∧
      (load child (gatesOf c.settings inherited (chain ++ [modOf i])) l).result = .ok l') ∨
    (∃ d, c.Declares source i d ∧ c.Enters inherited [⟨chain, source, i, d⟩] [] l l') ∨
    ((∀ child, ¬ c.NamesFile source path i child) ∧ (∀ d, ¬ c.Declares source i d) ∧
      c.Enters inherited [] (if isRoot then renamesOf i else []) l l') := by
  have hnames (hne : i.item.body ≠ .module false) (child : Path) :
      ¬ c.NamesFile source path i child := fun hnames ↦ hne hnames.body
  have hdeclares (hcall : ∀ call, i.item.body ≠ .macroCall call)
      (hstruct : ∀ body, i.item.body ≠ .struct body) (d : Declaration) :
      ¬ c.Declares source i d := fun hdeclares ↦ by
    rcases hdeclares.body with ⟨call, hbody⟩ | ⟨body, hbody⟩
    · exact hcall call hbody
    · exact hstruct body hbody
  -- What an item of each kind is not, is read off its body.
  cases hbody : i.item.body with
  | module isInline =>
    have hdeclares := hdeclares (by simp [hbody]) (by simp [hbody])
    have hrenames : renamesOf i = [] := by rw [renamesOf, hbody]
    cases isInline with
    | false =>
      rcases visit_module hbody h with ⟨child, hchild, hload⟩ | ⟨hchild, rfl⟩
      · exact .inl ⟨child, hchild, by rwa [gatesOf_concat]⟩
      · exact .inr (.inr ⟨hchild, hdeclares, enters_of_skipped hrenames⟩)
    | true =>
      rw [visit, hbody] at h
      cases h
      exact .inr (.inr ⟨hnames (by simp [hbody]), hdeclares, enters_of_skipped hrenames⟩)
  | macroCall call =>
    have hrenames : renamesOf i = [] := by rw [renamesOf, hbody]
    rcases visit_macroCall hbody h with ⟨d, hd, hrecord⟩ | ⟨hd, rfl⟩
    · exact .inr (.inl ⟨d, hd, enters_of_record (f := ⟨chain, source, i, d⟩) hrecord⟩)
    · exact .inr (.inr ⟨hnames (by simp [hbody]), hd, enters_of_skipped hrenames⟩)
  | struct body =>
    have hrenames : renamesOf i = [] := by rw [renamesOf, hbody]
    rcases visit_struct hbody h with ⟨d, hd, hrecord⟩ | ⟨hd, rfl⟩
    · exact .inr (.inl ⟨d, hd, enters_of_record (f := ⟨chain, source, i, d⟩) hrecord⟩)
    · exact .inr (.inr ⟨hnames (by simp [hbody]), hd, enters_of_skipped hrenames⟩)
  | use tree =>
    exact .inr (.inr ⟨hnames (by simp [hbody]), hdeclares (by simp [hbody]) (by simp [hbody]),
      visit_use hbody h⟩)
  | enum _ | expression _ | typeAlias _ | plain _ =>
    have hrenames : renamesOf i = [] := by rw [renamesOf, hbody]
    rw [visit, hbody] at h
    cases h
    exact .inr (.inr ⟨hnames (by simp [hbody]), hdeclares (by simp [hbody]) (by simp [hbody]),
      enters_of_skipped hrenames⟩)

end Visit

/-! ## The run -/

/-- Visiting items one after the other, if loading a file has a walk. -/
theorem walk_of_visitAll {load : Loader}
    (hload : ∀ (chain : List ModDeclaration) (child : Path) (l l' : Lookup),
      (load child (gatesOf c.settings inherited chain) l).result = .ok l' →
        ∃ source items found, c.Holds child source items ∧ c.Walk chain child source items found ∧
          c.Enters inherited found [] l l')
    {chain : List ModDeclaration} {path : Path} {source : Source} {isRoot : Bool}
    {items : List (Attributed Item)}
    (h : (c.visitAll load source path (gatesOf c.settings inherited chain) isRoot l
      items).result = .ok l') :
    ∃ found, c.Walk chain path source items found ∧
      c.Enters inherited found (items.flatMap fun i ↦ if isRoot then renamesOf i else []) l l' := by
  induction items generalizing l with
  | nil =>
    cases h
    exact ⟨[], .nil, .refl _⟩
  | cons i is ih =>
    obtain ⟨l₁, hvisit, hrest⟩ := Logged.result_bind_eq_ok.mp h
    obtain ⟨rest, hwalk, henters⟩ := ih hrest
    rw [List.flatMap_cons]
    rcases visit_cases hvisit with ⟨child, hnames, hchild⟩ | ⟨d, hd, hitem⟩ | ⟨hnames, hd, hitem⟩
    · obtain ⟨source', items', inner, hholds, hinner, hitem⟩ := hload _ child l l₁ hchild
      refine ⟨inner ++ rest, .module hnames hholds hinner hwalk, ?_⟩
      rw [renamesOf_of_namesFile hnames, ite_self]
      exact hitem.trans henters
    · refine ⟨⟨chain, source, i, d⟩ :: rest, .declaration hd hwalk, ?_⟩
      rw [renamesOf_of_declares hd, ite_self]
      exact hitem.trans henters
    · exact ⟨rest, .other hnames hd hwalk, hitem.trans henters⟩

/-- **A file that is loaded has a walk, and what the walk finds is recorded.** -/
theorem walk_of_load {fuel : Nat} {isRoot : Bool} {chain : List ModDeclaration} {path : Path}
    (h : (c.load fuel isRoot path (gatesOf c.settings inherited chain) l).result = .ok l') :
    ∃ source items found, c.Holds path source items ∧ c.Walk chain path source items found ∧
      c.Enters inherited found (items.flatMap fun i ↦ if isRoot then renamesOf i else []) l l' := by
  induction fuel generalizing isRoot chain path l l' with
  | zero => cases h
  | succ fuel ih =>
    obtain ⟨-, -, h⟩ := Logged.result_bind_eq_ok.mp h
    obtain ⟨source, hsource, h⟩ := Logged.result_bind_eq_ok.mp h
    obtain ⟨items, hitems, h⟩ := Logged.result_bind_eq_ok.mp h
    have hchild (chain : List ModDeclaration) (child : Path) (l l' : Lookup)
        (hload : (c.load fuel false child (gatesOf c.settings inherited chain) l).result = .ok l') :
        ∃ source items found, c.Holds child source items ∧ c.Walk chain child source items found ∧
          c.Enters inherited found [] l l' := by
      obtain ⟨source', items', found, hholds, hwalk, henters⟩ := ih hload
      refine ⟨source', items', found, hholds, hwalk, ?_⟩
      rwa [List.flatMap_eq_nil_iff.mpr fun _ _ ↦ if_neg Bool.false_ne_true] at henters
    obtain ⟨found, hwalk, henters⟩ := walk_of_visitAll hchild h
    exact ⟨source, items, found, ⟨hsource, hitems⟩, hwalk, henters⟩

/-- A crawl that succeeds enters what the walk from the root finds, and the renames of the root. -/
theorem walk_of_crawl {root : Path} (h : (c.crawl root).result = .ok l) :
    ∃ source items found, c.Holds root source items ∧ c.Walk [] root source items found ∧
      c.Enters [] found (items.flatMap renamesOf) .empty l := by
  obtain ⟨l', hload, h⟩ := Logged.result_bind_eq_ok.mp h
  obtain ⟨-, -, h⟩ := Logged.result_bind_eq_ok.mp h
  obtain rfl : l' = l := Except.ok.inj h
  have hroot : (c.load c.maxDepth true root (gatesOf c.settings [] []) .empty).result = .ok l' :=
    hload
  exact walk_of_load hroot

/-- A lookup is what the crawl of a crate gives, or the crawl of a module under a gate that it
inherits. -/
def Crawls (c : Crate) (path : Path) (inherited : Features) (l : Lookup) : Prop :=
  (inherited = .always ∧ (c.crawl path).result = .ok l) ∨
    (c.crawlModule path inherited).result = .ok l

theorem walk_of_crawls {path : Path} {features : Features} (h : c.Crawls path features l) :
    ∃ source items found renames, c.Holds path source items ∧
      c.Walk [] path source items found ∧
        c.Enters (Gate.ofFeatures features) found renames .empty l := by
  rcases h with ⟨rfl, h⟩ | h
  · obtain ⟨source, items, found, hholds, hwalk, henters⟩ := walk_of_crawl h
    exact ⟨source, items, found, _, hholds, hwalk, henters⟩
  · have hmodule : (c.load c.maxDepth false path
        (gatesOf c.settings (Gate.ofFeatures features) []) .empty).result = .ok l := h
    obtain ⟨source, items, found, hholds, hwalk, henters⟩ := walk_of_load hmodule
    exact ⟨source, items, found, _, hholds, hwalk, henters⟩

end Crate
end NodeSchema
