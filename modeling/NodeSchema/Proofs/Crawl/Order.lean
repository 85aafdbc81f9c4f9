import NodeSchema.Proofs.Crawl.Reading
import NodeSchema.Proofs.Rust.Moved
import NodeSchema.Proofs.Schema.Order
import NodeSchema.Rust.Grammar.File
import NodeSchema.Schema.Json

/-!
# The order of items

Declarations are read before any type is looked up, so that they may stand in any order.  Here this
is a statement about two runs: if the items of any files of a crate are put in another order, each
item with its attributes (`Crate.Rearranges`), and the rules of the table of spellings too, then the
schema is the same text, or there is none in either case (`schemaText_congr`).

An item that has moved is the same apart from places (`SameItem`).  What it gives to a crawl is the
same (`alike_reads`), so rearranged files give rearranged findings (`alike_finds`), whatever order
they are entered in.  Only names that are declared twice would tell the order, as the later replaces
the earlier.
-/

set_option autoImplicit false

namespace NodeSchema

open Rust

/-! ## Findings in another order -/

/-- The same is given, in another order. -/
structure Findings.Rearranges (f f' : Findings) : Prop where
  declarations : f.declarations.Perm f'.declarations
  renames : f.renames.Perm f'.renames

namespace Findings

theorem Rearranges.refl (f : Findings) : f.Rearranges f := ⟨.refl _, .refl _⟩

theorem Rearranges.trans {f g h : Findings} (hfg : f.Rearranges g) (hgh : g.Rearranges h) :
    f.Rearranges h :=
  ⟨hfg.declarations.trans hgh.declarations, hfg.renames.trans hgh.renames⟩

theorem rearranges_concat_of_perm {fs gs : List Findings} (h : fs.Perm gs) :
    (concat fs).Rearranges (concat gs) :=
  ⟨h.flatMap_right declarations, h.flatMap_right renames⟩

theorem rearranges_concat {fs gs : List Findings} (h : List.Forall₂ Rearranges fs gs) :
    (concat fs).Rearranges (concat gs) := by
  induction h with
  | nil => exact .refl _
  | cons hfg _ ih =>
    exact ⟨hfg.declarations.append ih.declarations, hfg.renames.append ih.renames⟩

end Findings

/-- What is entered under different names can be entered in any order. -/
theorem Crate.rearranges_enter {f f' : Findings} (h : f.Rearranges f')
    (hdeclarations : (f.declarations.map Declaration.ident).Nodup)
    (hrenames : (f.renames.map Prod.fst).Nodup) :
    (Lookup.empty.enter f).Rearranges (Lookup.empty.enter f') := by
  refine ⟨Table.rearranges_ofPairs (h.declarations.map _) ?_,
    Table.rearranges_ofPairs h.renames hrenames⟩
  rw [List.map_map]
  exact hdeclarations

section FileParser

variable [FileParser]

/-! ## Files in another order -/

namespace Rust

/-- An item of one text and an item of another are the same, with the same attributes, in two
places. -/
structure SameItem (source source' : Source) (i i' : Attributed Item) : Prop where
  unplaced : i.unplaced = i'.unplaced
  call : ∀ call call', i.item.body = .macroCall call → i'.item.body = .macroCall call' →
    call.SameBytes source source' call'

/-- The items of one text are those of another, in another order. -/
def Source.Rearranges (source source' : Source) : Prop :=
  ∃ items items' between, source.items = .ok items ∧ source'.items = .ok items' ∧
    items.Perm between ∧ List.Forall₂ (SameItem source source') between items'

end Rust

/-- Two trees have the same files, of which some hold their items in another order. -/
structure FileTree.Rearranges (t t' : FileTree) : Prop where
  directories : t.directories = t'.directories
  files : List.Forall₂ (fun f f' ↦ f.1 = f'.1 ∧
    (f.2 = f'.2 ∨ ∀ path, Source.Rearranges ⟨path, f.2⟩ ⟨path, f'.2⟩)) t.files t'.files

/-- Two crates are the same, apart from the order of the items in some files. -/
structure Crate.Rearranges (c c' : Crate) : Prop where
  tree : c.tree.Rearranges c'.tree
  directory : c.directory = c'.directory
  settings : c.settings = c'.settings

/-! ## Reading files -/

theorem FileTree.Rearranges.matches {t t' : FileTree} (h : t.Rearranges t') :
    t.Matches (fun bytes bytes' ↦ bytes = bytes' ∨
      ∀ path, Source.Rearranges ⟨path, bytes⟩ ⟨path, bytes'⟩) t' :=
  ⟨h.directories, h.files⟩

namespace Crate

variable {c c' : Crate}

/-- The file of a path is the same, or holds its items in another order. -/
theorem alike_source (h : c.Rearranges c') (path : Path) :
    Alike (fun source source' ↦ source = source' ∨ source.Rearranges source') (c.source path)
      (c'.source path) := by
  refine (alike_source_of_matches h.tree.matches h.directory path).mono fun source source' hs ↦ ?_
  obtain ⟨name, bytes⟩ := source
  obtain ⟨name', bytes'⟩ := source'
  obtain ⟨rfl, hbytes⟩ := hs
  exact hbytes.imp (congrArg _) fun hitems ↦ hitems name

/-! ## What items give -/

/-- Two items give the same: they are the same apart from places, and the same is recognised in
them. -/
structure Agree (source source' : Source) (i i' : Attributed Item) : Prop where
  unplaced : i.unplaced = i'.unplaced
  recognized : ∀ call call', i.item.body = .macroCall call → i'.item.body = .macroCall call' →
    Alike Eq (Declaration.recognize source call) (Declaration.recognize source' call')

theorem Agree.refl (source : Source) (i : Attributed Item) : Agree source source i i where
  unplaced := rfl
  recognized call call' hcall hcall' := by
    cases hcall.symm.trans hcall'
    exact .of_eq (fun _ ↦ rfl) rfl

theorem Agree.of_sameItem {source source' : Source} {i i' : Attributed Item}
    (h : SameItem source source' i i') : Agree source source' i i' :=
  ⟨h.unplaced, fun call call' hcall hcall' ↦
    Declaration.alike_recognize (h.call call call' hcall hcall')⟩

/-- The items of a file that is the same or rearranged give the same, in some order. -/
theorem alike_items {source source' : Source}
    (h : source = source' ∨ source.Rearranges source') :
    Alike (fun items items' ↦ ∃ between, items.Perm between ∧
      List.Forall₂ (Agree source source') between items') source.items source'.items := by
  rcases h with rfl | ⟨items, items', between, hitems, hitems', hperm, hsame⟩
  · refine .of_eq (fun items ↦ ⟨items, .refl items, ?_⟩) rfl
    exact List.forall₂_same.mpr fun i _ ↦ .refl source i
  · rw [hitems, hitems']
    exact .ok ⟨between, hperm, hsame.imp fun _ _ ↦ Agree.of_sameItem⟩

theorem Agree.actsAlike {source source' : Source} {i i' : Attributed Item}
    (h : Agree source source' i i') : ActsAlike source source' i i' :=
  ⟨congrArg Attributed.item h.unplaced,
    fun name ↦ alike_moduleFile name (congrArg Attributed.attributes h.unplaced), h.recognized⟩

theorem Agree.ofAttributes_eq {source source' : Source} {i i' : Attributed Item}
    (h : Agree source source' i i') :
    Cfg.ofAttributes i.attributes = Cfg.ofAttributes i'.attributes :=
  Cfg.ofAttributes_congr (congrArg Attributed.attributes h.unplaced)

theorem Agree.ofAttributes_gatingAttributes_eq {source source' : Source} {i i' : Attributed Item}
    (h : Agree source source' i i') :
    Cfg.ofAttributes (gatingAttributes i) = Cfg.ofAttributes (gatingAttributes i') := by
  have hbody : i.item.body.unplaced = i'.item.body.unplaced :=
    congrArg (fun i ↦ i.item.body) h.unplaced
  rw [gatingAttributes, gatingAttributes]
  rcases ItemBody.unplaced_cases hbody with ⟨isInline, hb, hb'⟩ | ⟨body, body', hb, hb', -⟩ |
    ⟨tree, hb, hb'⟩ | ⟨call, call', hb, hb'⟩ | ⟨hb, hb'⟩
  · rw [hb, hb']
  · rw [hb, hb']
  · rw [hb, hb']
  · rw [hb, hb']
    exact h.ofAttributes_eq
  · have hnone := gatingAttributes_of_isOther hb
    have hnone' := gatingAttributes_of_isOther hb'
    rw [gatingAttributes] at hnone hnone'
    rw [hnone, hnone']

/-- What agrees names the same file under the same name. -/
theorem Agree.nameOf_eq {source source' : Source} {i i' : Attributed Item}
    (h : Agree source source' i i') : nameOf i = nameOf i' :=
  congrArg (fun i ↦ i.item.name.getD "") h.unplaced

/-- Files that are the same or rearranged give the same findings in some order. -/
theorem alike_finds {c c' : Crate} (h : c.Rearranges c') (fuel : Nat) (isRoot : Bool) (path : Path)
    {gates gates' : List Gate} (hgates : Gate.resolve gates = Gate.resolve gates') :
    Alike Findings.Rearranges (c.finds fuel isRoot path gates)
      (c'.finds fuel isRoot path gates') := by
  induction fuel generalizing isRoot path gates gates' with
  | zero => exact .error
  | succ fuel ih =>
    rw [finds, finds]
    refine (alike_source h path).bind fun source source' hsource ↦ ?_
    refine (alike_items hsource).bind fun items items' hitems ↦ ?_
    obtain ⟨between, hperm, hagree⟩ := hitems
    have hbetween : Alike (fun fs gs ↦ ∃ hs, fs.Perm hs ∧ List.Forall₂ Findings.Rearranges hs gs)
        (items.mapM (c.reads (c.finds fuel false) source path gates isRoot))
        (items'.mapM (c'.reads (c'.finds fuel false) source' path gates' isRoot)) :=
      (alike_mapM_of_perm hperm).trans <| .mapM <| hagree.imp fun i i' hi ↦
        alike_reads .refl h.settings hi.actsAlike
          (fun child _ ↦ ih false child (by
            rw [h.settings, hi.nameOf_eq]
            exact resolve_moduleGates_congr _ _ hgates hi.ofAttributes_eq))
          fun _ _ ↦ Gate.resolve_add_congr hgates hi.ofAttributes_gatingAttributes_eq
    refine hbetween.map fun fs gs hfound ↦ ?_
    obtain ⟨hs, hperm, hrearranges⟩ := hfound
    exact (Findings.rearranges_concat_of_perm hperm).trans (Findings.rearranges_concat hrearranges)

/-- **Rearranged crates give the same in some order.** -/
theorem alike_findings {c c' : Crate} (h : c.Rearranges c') (root : Path) :
    Alike Findings.Rearranges (c.findings root) (c'.findings root) := by
  rw [findings, findings, maxDepth, maxDepth, h.tree.files.length_eq]
  exact alike_finds h _ true root rfl

/-! ## The schema -/

/-- The text of the schema of a crate: it is crawled from its root file, and the schema of what was
found is assembled with a table of spellings. -/
def schemaText (c : Crate) (root : Path) (tokens : Table String) (leaves : LeafTables)
    (version : String) : Except Failure String := do
  let found ← (c.crawl root).result
  let d ← (found.assemble tokens leaves version).result
  d.print

/-- No name of a declaration and no new name of an import is found twice. -/
structure HasDistinctNames (c : Crate) (root : Path) : Prop where
  declarations : ∀ f, c.findings root = .ok f → (f.declarations.map Declaration.ident).Nodup
  renames : ∀ f, c.findings root = .ok f → (f.renames.map Prod.fst).Nodup

/-- **The schema does not depend on the order of the items of files and of the rules of the table.**
If no name is declared twice, no new name is imported twice and no spelling has two rules, then the
schema of the rearranged crate is the same text, or there is none in either case. -/
theorem schemaText_congr {c c' : Crate} (h : c.Rearranges c') {root : Path}
    (hnames : c.HasDistinctNames root) {rules rules' : List (String × String)}
    (hrules : rules.Perm rules') (hspellings : (rules.map Prod.fst).Nodup) (leaves : LeafTables)
    (version text : String) :
    c.schemaText root (.ofPairs rules) leaves version = .ok text ↔
      c'.schemaText root (.ofPairs rules') leaves version = .ok text := by
  have hfindings := alike_findings h root
  rw [schemaText, schemaText, crawl_eq, crawl_eq]
  cases hf : c.findings root with
  | error =>
    rw [hf] at hfindings
    cases hf' : c'.findings root with
    | error => exact ⟨nofun, nofun⟩
    | ok => rw [hf'] at hfindings; cases hfindings
  | ok f =>
    obtain ⟨f', hf', hrearranges⟩ := hfindings.exists_of_eq_ok hf
    have hlookup := rearranges_enter hrearranges (hnames.declarations f hf) (hnames.renames f hf)
    rw [hf']
    show (_ >>= Definitions.print) = _ ↔ (_ >>= Definitions.print) = _
    simp only [bind_eq_ok,
      Lookup.assemble_congr hlookup (Table.rearranges_ofPairs hrules hspellings)]

end Crate

end FileParser

namespace Crate

/-! ### Two items in either order -/

/-- A call that declares a struct. -/
def callText : String := "ast_struct!\x7bpub struct Lit\x7b\x7d\x7d"

/-- The arguments of the call at the beginning of a text. -/
def callArguments : Tree :=
  .group ⟨.mark, "\x7b", [], 11, 12⟩
    [.leaf ⟨.word, "pub", [], 12, 15⟩, .leaf ⟨.word, "struct", [⟨.blank, [' ']⟩], 16, 22⟩,
      .leaf ⟨.word, "Lit", [⟨.blank, [' ']⟩], 23, 26⟩,
      .group ⟨.mark, "\x7b", [], 26, 27⟩ [] ⟨.mark, "\x7d", [], 27, 28⟩]
    ⟨.mark, "\x7d", [], 28, 29⟩

/-- The call at a place of a text. -/
def callItem (start : Nat) : Attributed Item :=
  ⟨[], .macroCall ⟨"ast_struct", callArguments.moved start, callText, start⟩, none, false, callText,
    start⟩

/-- An import that renames the struct. -/
def useText : String := "pub use lit::Lit as Num;"

/-- The import at a place of a text. -/
def useItem (start : Nat) : Attributed Item :=
  ⟨[], .use (.rename "lit::Lit" "Num"), none, true, useText, start⟩

/-- The crate whose one file holds a text. -/
def ofText (text : String) : Crate where
  tree := { files := [(["lib.rs"], Text.bytesOf text)], directories := [] }
  directory := ⟨true, []⟩
  settings := .default

theorem isWithin_callArguments : callArguments.IsWithin 29 := by
  have hwithin {t : Token} (h : t.start < t.stop ∧ t.stop ≤ 29 ∧
      (t.kind = .word → t.start + (Text.bytesOf t.text).length ≤ 29)) : t.IsWithin 29 :=
    ⟨h.1, h.2.1, h.2.2⟩
  refine .group (hwithin (by decide)) (hwithin (by decide)) fun t ht ↦ ?_
  rcases ht with _ | ⟨_, _ | ⟨_, _ | ⟨_, _ | ⟨_, ht⟩⟩⟩⟩
  · exact .leaf (hwithin (by decide))
  · exact .leaf (hwithin (by decide))
  · exact .leaf (hwithin (by decide))
  · exact .group (hwithin (by decide)) (hwithin (by decide)) nofun
  · cases ht

theorem items_eq_ok {path : String} {bytes : List UInt8} {items : List (Attributed Item)}
    (h : (trees? bytes >>= entriesOf).map itemsOf = some items) :
    Source.items ⟨path, bytes⟩ = .ok items := by
  obtain ⟨es, hes, rfl⟩ := Option.map_eq_some_iff.mp h
  rw [Source.items]
  dsimp only [FileParser.parse]
  rw [hes]

theorem rearranges_ofText :
    (ofText (callText ++ useText)).Rearranges (ofText (useText ++ callText)) := by
  have hitems : (trees? (Text.bytesOf (callText ++ useText)) >>= entriesOf).map itemsOf =
      some [callItem 0, useItem 29] := by decide +kernel
  have hitems' : (trees? (Text.bytesOf (useText ++ callText)) >>= entriesOf).map itemsOf =
      some [useItem 0, callItem 24] := by decide +kernel
  have hbytes : ((Text.bytesOf (callText ++ useText)).drop 0).take 29 =
      ((Text.bytesOf (useText ++ callText)).drop 24).take 29 := by decide +kernel
  have hsources (path : String) : Source.Rearranges ⟨path, Text.bytesOf (callText ++ useText)⟩
      ⟨path, Text.bytesOf (useText ++ callText)⟩ := by
    refine ⟨_, _, _, items_eq_ok hitems, items_eq_ok hitems', .swap _ _ _,
      .cons ⟨rfl, nofun⟩ (.cons ⟨rfl, ?_⟩ .nil)⟩
    rintro _ _ ⟨⟩ ⟨⟩
    exact ⟨rfl, 0, 24, 29, hbytes, callArguments, isWithin_callArguments, rfl, rfl⟩
  exact ⟨⟨rfl, .cons ⟨rfl, .inr hsources⟩ .nil⟩, rfl, rfl⟩

theorem findings_ofText : (ofText (callText ++ useText)).findings ⟨false, ["lib.rs"]⟩ =
    .ok ⟨[⟨"Lit", .struct [], .always⟩], [("Num", "Lit")]⟩ := by decide +kernel

theorem schemaText_congr_ofText : ∃ text,
    (ofText (callText ++ useText)).schemaText ⟨false, ["lib.rs"]⟩
      (.ofPairs [("+", "Plus"), ("-", "Minus")]) .default "1.0.0" = .ok text ∧
    (ofText (useText ++ callText)).schemaText ⟨false, ["lib.rs"]⟩
      (.ofPairs [("-", "Minus"), ("+", "Plus")]) .default "1.0.0" = .ok text := by
  have hnames : (ofText (callText ++ useText)).HasDistinctNames ⟨false, ["lib.rs"]⟩ := by
    refine ⟨fun f hf ↦ ?_, fun f hf ↦ ?_⟩
    · cases findings_ofText.symm.trans hf
      decide
    · cases findings_ofText.symm.trans hf
      decide
  have hok : ((ofText (callText ++ useText)).schemaText ⟨false, ["lib.rs"]⟩
      (.ofPairs [("+", "Plus"), ("-", "Minus")]) .default "1.0.0").isOk = true := by decide +kernel
  cases htext : (ofText (callText ++ useText)).schemaText ⟨false, ["lib.rs"]⟩
      (.ofPairs [("+", "Plus"), ("-", "Minus")]) .default "1.0.0" with
  | error =>
    rw [htext] at hok
    cases hok
  | ok text =>
    exact ⟨text, rfl, (schemaText_congr rearranges_ofText hnames (.swap _ _ _) (by decide) _ _ _).mp
      htext⟩

end Crate
end NodeSchema
