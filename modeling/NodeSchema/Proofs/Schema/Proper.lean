import NodeSchema.Extraction
import NodeSchema.Proofs.Crawl.Gates
import NodeSchema.Proofs.Json.Plain
import NodeSchema.Proofs.Schema.Validation

/-!
# Extracted schemas are proper

The predicates that a crawl records are sets: each is one of the gates of its declaration, or
unconditional, and the names of a gate are kept in order, each once (`nodup_names_ofList`).  The
tokens of an assembled schema are a map.  So an extracted schema is proper as soon as no node has
two members of one name (`Extraction.isProper_of_run`), and has a text in any case
(`Extraction.isOrdered_of_run`).

The text of a proper schema is told by what is read from it: it is the one text that is read as a
schema that says the same, and that is the text of what is read from it (`text_eq_iff`).
-/

set_option autoImplicit false

namespace NodeSchema

/-! ## Predicates -/

namespace Features

theorem pairwise_insertName (name : String) {ns : List String} (h : ns.Pairwise (· < ·)) :
    (insertName name ns).Pairwise (· < ·) := by
  induction ns with
  | nil => exact List.pairwise_singleton _ name
  | cons n ns ih =>
    obtain ⟨hn, hns⟩ := List.pairwise_cons.mp h
    rw [insertName]
    split
    · next hlt =>
      refine List.pairwise_cons.mpr ⟨List.forall_mem_cons.mpr ⟨hlt, fun m hm ↦ ?_⟩, h⟩
      exact hlt.trans (hn m hm)
    · next hle =>
      split
      · exact h
      · next hne =>
        refine List.pairwise_cons.mpr ⟨fun m hm ↦ ?_, ih hns⟩
        rcases mem_insertName.mp hm with rfl | hm
        · exact lt_of_le_of_ne (not_lt.mp hle) (Ne.symm hne)
        · exact hn m hm

/-- The names of a list are kept once. -/
theorem nodup_names_ofList (names : List String) : (ofList names).names.Nodup := by
  have hsorted : (sortedNames names).Pairwise (· < ·) := by
    induction names with
    | nil => exact List.Pairwise.nil
    | cons name names ih => exact pairwise_insertName name ih
  exact hsorted.imp fun hlt ↦ hlt.ne

theorem nodup_names_predicate? {arguments : List Rust.Tree} {f : Features}
    (h : Cfg.predicate? arguments = some f) : f.names.Nodup := by
  rw [Cfg.predicate?.eq_def] at h
  split at h
  · cases h
  · split at h
    · split at h
      · split at h
        · obtain ⟨names, -, rfl⟩ := Option.map_eq_some_iff.mp h
          exact nodup_names_ofList names
        · cases h
      · cases h
    · split at h
      · obtain ⟨name, -, rfl⟩ := Option.map_eq_some_iff.mp h
        exact nodup_names_ofList [name]
      · cases h

theorem nodup_names_ofAttribute {a : Rust.Attribute} {f : Features}
    (h : Cfg.ofAttribute a = .ok f) : f.names.Nodup := by
  rw [Cfg.ofAttribute] at h
  split at h
  · split at h
    · split at h
      · next hpredicate =>
        cases h
        exact nodup_names_predicate? hpredicate
      · cases h
    · cases h
  · cases h

end Features

/-! ## Records -/

namespace Crate

variable {c : Crate}

theorem nodup_names_ceiling (s : CrawlSettings) (chain : List ModDeclaration) :
    (ceiling s .always chain).names.Nodup := by
  rw [ceiling]
  split
  · exact Features.nodup_names_ofList _
  · exact List.nodup_nil

theorem Found.nodup_names_marker (f : Found) : f.marker.names.Nodup := by
  rw [marker]
  split
  · split
    · exact Features.nodup_names_ofList _
    · exact List.nodup_nil
  · exact List.nodup_nil

/-- The names of every gate of a declaration are different. -/
theorem Found.nodup_names_of_mem_gates {s : CrawlSettings} {f : Found} {gates : List Features}
    (h : f.gates s .always = .ok gates) : ∀ g ∈ gates, g.names.Nodup := by
  obtain ⟨gs, hgs, rfl⟩ := map_eq_ok.mp h
  refine List.forall_mem_cons.mpr ⟨f.nodup_names_marker, List.forall_mem_cons.mpr
    ⟨nodup_names_ceiling s f.modules, fun g hg ↦ ?_⟩⟩
  obtain ⟨a, -, ha⟩ := exists_of_mem_right (mapM_eq_ok.mp hgs) hg
  exact Features.nodup_names_ofAttribute ha

/-- **The predicates that a crawl records are sets.** -/
theorem nodup_names_of_crawl [Rust.FileParser] {path : Path} {l : Lookup}
    (h : (c.crawl path).result = .ok l) :
    ∀ e ∈ l.declarations.entries, e.2.features.names.Nodup := by
  obtain ⟨source, items, found, hholds, hwalk, henters⟩ := walk_of_crawl h
  intro e he
  have hfind := (Table.find?_eq_some_iff henters.isKeyed.isMap).mpr he
  have hlookup := henters.find?_declarations e.1
  rw [hfind, Option.map_some, Option.map_eq_some_iff] at hlookup
  obtain ⟨f, hlast, hf⟩ := hlookup
  have hfound : f ∈ found := (List.mem_filter.mp (List.mem_of_getLast? hlast)).1
  obtain ⟨_, _, _, _, _, hdeclares⟩ := hwalk.exists_reachable hholds (List.Subset.refl _) f hfound
  have hrecorded : f.recorded c.settings (Gate.ofFeatures .always) = .ok e.2 := hf
  obtain ⟨gates, hgates, hmeet⟩ := isMeet_of_recorded hdeclares hrecorded
  rcases eq_or_ne e.2.features.names [] with hnil | hne
  · rw [hnil]
    exact List.nodup_nil
  · exact Found.nodup_names_of_mem_gates hgates _ (hmeet.mem hne)

end Crate

/-! ## Texts -/

namespace Node

theorem exists_names {fs : List FeatureName} (h : ∀ f ∈ fs, ∃ name, f = .name name) :
    ∃ names : List String, fs = names.map .name := by
  induction fs with
  | nil => exact ⟨[], rfl⟩
  | cons f fs ih =>
    rw [List.forall_mem_cons] at h
    obtain ⟨⟨name, rfl⟩, hfs⟩ := h
    obtain ⟨names, rfl⟩ := ih hfs
    exact ⟨name :: names, rfl⟩

/-- A node that was read is proper if it says the same as a proper node. -/
theorem IsRead.isProper_of_same {n m : Node} (hn : n.IsRead) (hm : m.IsProper)
    (h : n.same m = true) : n.IsProper := by
  simp only [same, Bool.and_eq_true, decide_eq_true_eq, and_assoc] at h
  obtain ⟨-, hset, hdata, -⟩ := h
  obtain ⟨others, -, hothers⟩ := hm.features
  rw [FeatureName.sameSet, Bool.and_eq_true, List.all_eq_true] at hset
  obtain ⟨names, hnames⟩ := exists_names fun f hf ↦ by
    obtain ⟨g, hg, hsame⟩ := List.any_eq_true.mp (hset.2 f hf)
    rw [hothers] at hg
    obtain ⟨name, -, rfl⟩ := List.mem_map.mp hg
    refine ⟨name, ?_⟩
    cases f with
    | name other => rw [show other = name by simpa [FeatureName.same] using hsame]
    | null | bool _ | int _ | float _ => simp [FeatureName.same] at hsame
  refine ⟨⟨names, ?_, hnames⟩, hdata ▸ hm.members⟩
  have hdistinct := hn.distinct
  rw [hnames, List.pairwise_map] at hdistinct
  exact hdistinct.imp fun hne heq ↦ by simp [FeatureName.same, heq] at hne

end Node

namespace Definitions

theorem exists_of_sameNodes {ns ms : List Node} (h : sameNodes ns ms = true) :
    ∀ n ∈ ns, ∃ m ∈ ms, n.same m = true := by
  induction ns generalizing ms with
  | nil => exact List.forall_mem_nil _
  | cons n ns ih =>
    cases ms with
    | nil => cases h
    | cons m ms =>
      rw [sameNodes, Bool.and_eq_true] at h
      refine List.forall_mem_cons.mpr ⟨⟨m, List.mem_cons_self, h.1⟩, fun n hn ↦ ?_⟩
      obtain ⟨m, hm, hsame⟩ := ih h.2 n hn
      exact ⟨m, List.mem_cons_of_mem _ hm, hsame⟩

/-- A schema that was read is proper if it says the same as a proper schema. -/
theorem IsRead.isProper_of_same {d e : Definitions} (he : e.IsRead) (hd : d.IsProper)
    (h : e.same d = true) : e.IsProper := by
  rw [same, Bool.and_eq_true, Bool.and_eq_true] at h
  refine ⟨fun n hn ↦ ?_, he.tokens⟩
  obtain ⟨m, hm, hsame⟩ := exists_of_sameNodes h.1.2 n hn
  exact (he.nodes n hn).isProper_of_same (hd.nodes m hm) hsame

/-- **The text of a proper schema** is the one that is read as a schema that says the same, and that
is the text of what is read from it. -/
theorem text_eq_iff {d : Definitions} (hd : d.IsProper) {text other : String}
    (h : d.print = .ok text) :
    other = text ↔ ∃ e, read other = .ok e ∧ e.same d = true ∧ e.print = .ok other := by
  constructor
  · rintro rfl
    have hnormal := hd.normal
    refine ⟨d.normal, read_print hd h, (same_iff_agree hnormal hd).mpr (normal_agree hd), ?_⟩
    rw [(print_eq_iff hnormal hd).mpr, h]
    exact (agree_iff_normal_eq hnormal hd).mp (normal_agree hd)
  · rintro ⟨e, hread, hsame, hprint⟩
    have he := (isRead_of_read hread).isProper_of_same hd hsame
    have heq := (agree_iff_normal_eq he hd).mp ((same_iff_agree he hd).mp hsame)
    rw [(print_eq_iff he hd).mpr heq, h] at hprint
    exact (Except.ok.inj hprint).symm

/-- The text of a schema holds no carriage return. -/
theorem notMem_print {d : Definitions} {text : String} (h : d.print = .ok text) :
    '\r' ∉ text.toList := by
  rw [print] at h
  split at h
  · next v _ =>
    cases h
    rw [String.toList_ofList]
    exact List.not_mem_append (Json.notMem_print v) (by decide)
  · cases h

end Definitions

/-! ## Schemas -/

namespace Extraction

variable [Rust.FileParser] [Toml.DocumentReader] {x : Extraction} {d : Definitions}

/-- What an extraction that succeeds has assembled. -/
theorem exists_definitions_of_run (h : x.run.result = .ok d) :
    ∃ tokens found version, (x.crate.crawl (.ofString x.config.crateRoot)).result = .ok found ∧
      found.definitions tokens x.config.leaves version = .ok d := by
  obtain ⟨-, -, h⟩ := Logged.result_bind_eq_ok.mp h
  obtain ⟨tokens, -, h⟩ := Logged.result_bind_eq_ok.mp h
  obtain ⟨found, hfound, h⟩ := Logged.result_bind_eq_ok.mp h
  obtain ⟨version, -, h⟩ := Logged.result_bind_eq_ok.mp h
  rw [Lookup.result_assemble] at h
  exact ⟨tokens, found, version, hfound, h⟩

/-- The features of an extracted node are names and occur once. -/
theorem features_of_run (h : x.run.result = .ok d) {n : Node} (hn : n ∈ d.nodes) :
    ∃ names : List String, names.Nodup ∧ n.features = names.map .name := by
  obtain ⟨tokens, found, version, hfound, hassembled⟩ := exists_definitions_of_run h
  obtain ⟨-, hnodes, -⟩ := Lookup.definitions_eq_ok.mp hassembled
  obtain ⟨e, he, hnode⟩ := exists_of_mem_right (mapM_eq_ok.mp hnodes) hn
  obtain ⟨-, hfeatures, -⟩ := Scope.node_eq_ok_iff.mp hnode
  have hentry := (Spelling.perm_sortEntries _).subset he
  exact ⟨_, Crate.nodup_names_of_crawl hfound e hentry, hfeatures⟩

/-- **An extracted schema is proper** if no node has two members of one name. -/
theorem isProper_of_run (h : x.run.result = .ok d) (hmembers : ∀ n ∈ d.nodes, n.data.names.Nodup) :
    d.IsProper := by
  obtain ⟨tokens, found, version, -, hassembled⟩ := exists_definitions_of_run h
  obtain ⟨-, -, htokens⟩ := Lookup.definitions_eq_ok.mp hassembled
  exact ⟨fun n hn ↦ ⟨features_of_run h hn, hmembers n hn⟩, Spelling.isMap_invert htokens⟩

/-- **An extracted schema has a text.** -/
theorem isOrdered_of_run (h : x.run.result = .ok d) : d.IsOrdered := by
  intro n hn
  obtain ⟨names, -, hfeatures⟩ := features_of_run h hn
  rw [Node.IsOrdered, hfeatures, FeatureName.sort?_names]
  rfl

end Extraction
end NodeSchema
