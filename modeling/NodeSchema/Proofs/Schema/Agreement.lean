import NodeSchema.Proofs.Order
import NodeSchema.Proofs.Schema.Feature

/-!
# When two schemas say the same

The features of a node are a set and the tokens of a schema are a map, but both are kept as lists.
Two schemas agree (`Definitions.Agree`) if they differ in the order of these lists at most.

The schemas that a run makes are proper (`Definitions.IsProper`): features are names and occur once,
no node has two members of one name, and no symbol has two entries.  A proper schema has a normal
form, with its features and tokens in order, and everything about agreement is read off it:

* `agree_iff_normal_eq` — proper schemas agree iff their normal forms are equal;
* `same_iff_agree` — `Definitions.same`, which is what a run compares with, decides agreement.
-/

set_option autoImplicit false

namespace NodeSchema

/-! ## Names as features -/

namespace FeatureName

/-- Names in order. -/
def sortNames (names : List String) : List String :=
  (Spelling.sortEntries (names.map fun n ↦ (n, ()))).map Prod.fst

theorem perm_sortNames (names : List String) : (sortNames names).Perm names := by
  have h := (Spelling.perm_sortEntries (names.map fun n ↦ (n, ()))).map Prod.fst
  rwa [List.map_map, show Prod.fst ∘ (fun n : String ↦ (n, ())) = id from rfl, List.map_id] at h

theorem sortNames_eq_iff {names others : List String} (h : names.Nodup) :
    sortNames names = sortNames others ↔ names.Perm others := by
  refine ⟨fun heq ↦ (perm_sortNames names).symm.trans (heq ▸ perm_sortNames others),
    fun hperm ↦ ?_⟩
  have hnodup : ((names.map fun n ↦ (n, ())).map Prod.fst).Nodup := by
    rwa [List.map_map, show Prod.fst ∘ (fun n : String ↦ (n, ())) = id from rfl, List.map_id]
  exact congrArg (List.map Prod.fst) (Spelling.sortEntries_congr hnodup (hperm.map _))

theorem insert?_name (name : String) (es : List (String × Unit)) :
    insert? (.name name) (es.map fun e ↦ .name e.1) =
      some ((Spelling.insertSorted (name, ()) es).map fun e ↦ .name e.1) := by
  induction es with
  | nil => rfl
  | cons e es ih =>
    rw [List.map_cons, insert?, ih]
    by_cases h : name < e.1
    · simp [before?, Spelling.insertSorted, h]
    · simp [before?, Spelling.insertSorted, h]

/-- Names have an order. -/
theorem sort?_names (names : List String) :
    sort? (names.map .name) = some ((sortNames names).map .name) := by
  have h (es : List (String × Unit)) :
      (names.map FeatureName.name).foldlM (fun sorted f ↦ insert? f sorted)
        (es.map fun e ↦ .name e.1) =
      some (((names.map fun n ↦ (n, ())).foldl
        (fun sorted e ↦ Spelling.insertSorted e sorted) es).map fun e ↦ .name e.1) := by
    induction names generalizing es with
    | nil => rfl
    | cons n ns ih =>
      rw [List.map_cons, List.foldlM_cons, insert?_name]
      exact ih _
  rw [sortNames, List.map_map]
  exact h []

/-- Two sets of names are compared by what they hold. -/
theorem sameSet_names {names others : List String} (h : names.Nodup) :
    sameSet (names.map .name) (others.map .name) = true ↔ names.Perm others := by
  have hany (n : String) : (others.map FeatureName.name).any (same (.name n)) = true ↔
      n ∈ others := by
    rw [List.any_map, List.any_eq_true]
    constructor
    · rintro ⟨m, hm, hsame⟩
      rwa [show n = m by simpa [same] using hsame]
    · exact fun hn ↦ ⟨n, hn, by simp [same]⟩
  simp only [sameSet, Bool.and_eq_true, List.length_map, decide_eq_true_eq, List.all_map,
    List.all_eq_true, Function.comp_apply, hany]
  constructor
  · rintro ⟨hlength, hsubset⟩
    exact (List.subperm_of_subset h hsubset).perm_of_length_le hlength.ge
  · exact fun hperm ↦ ⟨hperm.length_eq, fun n hn ↦ hperm.subset hn⟩

end FeatureName

/-! ## Nodes -/

/-- The names of the members of a node. -/
def NodeData.names : NodeData → List String
  | .fields fs => fs.map Prod.fst
  | .variants vs => vs.map Prod.fst
  | .opaque_ => []

namespace Node

/-- The features of a node are names and occur once, and no name has two members. -/
structure IsProper (n : Node) : Prop where
  /-- The features are names that are different. -/
  features : ∃ names : List String, names.Nodup ∧ n.features = names.map .name
  /-- The names of the members are different. -/
  members : n.data.names.Nodup

/-- Two nodes differ in the order of their features at most. -/
structure Agree (n m : Node) : Prop where
  ident : n.ident = m.ident
  features : ∀ f, f ∈ n.features ↔ f ∈ m.features
  data : n.data = m.data
  exhaustive : n.exhaustive = m.exhaustive

/-- A node with its features in order. -/
def normal (n : Node) : Node :=
  { n with features := (FeatureName.sort? n.features).getD n.features }

theorem normal_features {n : Node} {names : List String} (h : n.features = names.map .name) :
    n.normal.features = (FeatureName.sortNames names).map .name := by
  rw [normal, h, FeatureName.sort?_names]
  rfl

theorem IsProper.normal {n : Node} (hn : n.IsProper) : n.normal.IsProper := by
  obtain ⟨names, hnodup, hfeatures⟩ := hn.features
  refine ⟨⟨FeatureName.sortNames names, ?_, normal_features hfeatures⟩, hn.members⟩
  exact (FeatureName.perm_sortNames names).nodup_iff.mpr hnodup

theorem normal_eq_iff {n m : Node} : n.normal = m.normal ↔ n.ident = m.ident ∧
    n.normal.features = m.normal.features ∧ n.data = m.data ∧ n.exhaustive = m.exhaustive := by
  rw [normal, normal, Node.mk.injEq]

theorem IsProper.normal_normal {n : Node} (hn : n.IsProper) : n.normal.normal = n.normal := by
  obtain ⟨names, hnodup, hfeatures⟩ := hn.features
  have hperm := FeatureName.perm_sortNames names
  rw [normal_eq_iff, normal_features (normal_features hfeatures), normal_features hfeatures,
    (FeatureName.sortNames_eq_iff (hperm.nodup_iff.mpr hnodup)).mpr hperm]
  exact ⟨rfl, rfl, rfl, rfl⟩

/-- The features of proper nodes are in the same order once they are in order. -/
theorem normal_features_eq_iff {n m : Node} (hn : n.IsProper) (hm : m.IsProper) :
    n.normal.features = m.normal.features ↔ ∀ f, f ∈ n.features ↔ f ∈ m.features := by
  obtain ⟨names, hnodup, hfeatures⟩ := hn.features
  obtain ⟨others, hothers, hfeatures'⟩ := hm.features
  have hinj : Function.Injective FeatureName.name := fun _ _ h ↦ FeatureName.name.inj h
  rw [normal_features hfeatures, normal_features hfeatures', hfeatures, hfeatures',
    (List.map_injective_iff.mpr hinj).eq_iff, FeatureName.sortNames_eq_iff hnodup,
    ← List.perm_ext_iff_of_nodup (hnodup.map hinj) (hothers.map hinj),
    List.map_perm_map_iff hinj]

theorem agree_iff_normal_eq {n m : Node} (hn : n.IsProper) (hm : m.IsProper) :
    n.Agree m ↔ n.normal = m.normal := by
  rw [normal_eq_iff, normal_features_eq_iff hn hm]
  constructor
  · exact fun h ↦ ⟨h.ident, h.features, h.data, h.exhaustive⟩
  · exact fun ⟨hident, hfeatures, hdata, hexhaustive⟩ ↦
      ⟨hident, hfeatures, hdata, hexhaustive⟩

theorem same_iff_normal_eq {n m : Node} (hn : n.IsProper) (hm : m.IsProper) :
    n.same m = true ↔ n.normal = m.normal := by
  obtain ⟨names, hnodup, hfeatures⟩ := hn.features
  obtain ⟨others, -, hfeatures'⟩ := hm.features
  have hinj : Function.Injective FeatureName.name := fun _ _ h ↦ FeatureName.name.inj h
  rw [normal_eq_iff, normal_features hfeatures, normal_features hfeatures',
    (List.map_injective_iff.mpr hinj).eq_iff, FeatureName.sortNames_eq_iff hnodup,
    ← FeatureName.sameSet_names hnodup, ← hfeatures, ← hfeatures', same]
  simp only [Bool.and_eq_true, decide_eq_true_eq, and_assoc]

end Node

/-! ## Schemas -/

namespace Definitions

/-- The nodes are proper, and no symbol has two spellings. -/
structure IsProper (d : Definitions) : Prop where
  nodes : ∀ n ∈ d.nodes, n.IsProper
  tokens : d.tokens.IsMap

/-- **Two schemas say the same**: they have the same version, agree node for node, and spell the
same symbols alike. -/
structure Agree (d e : Definitions) : Prop where
  version : d.version = e.version
  nodes : List.Forall₂ Node.Agree d.nodes e.nodes
  tokens : ∀ symbol, d.tokens.find? symbol = e.tokens.find? symbol

/-- A schema with its features and tokens in order. -/
def normal (d : Definitions) : Definitions :=
  ⟨d.version, d.nodes.map Node.normal, ⟨Spelling.sortEntries d.tokens.entries⟩⟩

theorem IsProper.normal {d : Definitions} (hd : d.IsProper) : d.normal.IsProper := by
  refine ⟨fun n hn ↦ ?_, Spelling.nodup_names_sortEntries hd.tokens⟩
  obtain ⟨m, hm, rfl⟩ := List.mem_map.mp hn
  exact (hd.nodes m hm).normal

theorem normal_eq_iff {d e : Definitions} (hd : d.IsProper) :
    d.normal = e.normal ↔ d.version = e.version ∧
      d.nodes.map Node.normal = e.nodes.map Node.normal ∧
      d.tokens.entries.Perm e.tokens.entries := by
  rw [normal, normal, Definitions.mk.injEq, Table.mk.injEq,
    Spelling.sortEntries_eq_iff hd.tokens]

theorem forall₂_agree_iff {ns ms : List Node} (hns : ∀ n ∈ ns, n.IsProper)
    (hms : ∀ m ∈ ms, m.IsProper) :
    List.Forall₂ Node.Agree ns ms ↔ ns.map Node.normal = ms.map Node.normal := by
  induction ns generalizing ms with
  | nil => cases ms <;> simp
  | cons n ns ih =>
    cases ms with
    | nil => simp
    | cons m ms =>
      rw [List.forall_mem_cons] at hns hms
      rw [List.forall₂_cons, List.map_cons, List.map_cons, List.cons.injEq,
        Node.agree_iff_normal_eq hns.1 hms.1, ih hns.2 hms.2]

theorem sameNodes_iff {ns ms : List Node} (hns : ∀ n ∈ ns, n.IsProper)
    (hms : ∀ m ∈ ms, m.IsProper) :
    sameNodes ns ms = true ↔ ns.map Node.normal = ms.map Node.normal := by
  induction ns generalizing ms with
  | nil => cases ms <;> simp [sameNodes]
  | cons n ns ih =>
    cases ms with
    | nil => simp [sameNodes]
    | cons m ms =>
      rw [List.forall_mem_cons] at hns hms
      rw [sameNodes, Bool.and_eq_true, List.map_cons, List.map_cons, List.cons.injEq,
        Node.same_iff_normal_eq hns.1 hms.1, ih hns.2 hms.2]

theorem sameTable_iff {s t : Table String} (hs : s.IsMap) (ht : t.IsMap) :
    sameTable s t = true ↔ s.entries.Perm t.entries := by
  rw [sameTable, Bool.and_eq_true, decide_eq_true_eq, List.all_eq_true]
  simp only [decide_eq_true_eq, Table.find?_eq_some_iff ht]
  constructor
  · rintro ⟨hsize, hsubset⟩
    exact (List.subperm_of_subset hs.nodup_entries hsubset).perm_of_length_le hsize.ge
  · exact fun hperm ↦ ⟨hperm.length_eq, fun e he ↦ hperm.subset he⟩

/-- **Proper schemas agree iff their normal forms are equal.** -/
theorem agree_iff_normal_eq {d e : Definitions} (hd : d.IsProper) (he : e.IsProper) :
    d.Agree e ↔ d.normal = e.normal := by
  rw [normal_eq_iff hd, ← forall₂_agree_iff hd.nodes he.nodes,
    Table.perm_iff_find?_eq hd.tokens he.tokens]
  exact ⟨fun h ↦ ⟨h.version, h.nodes, h.tokens⟩, fun ⟨h1, h2, h3⟩ ↦ ⟨h1, h2, h3⟩⟩

/-- **The comparison of schemas decides agreement**, if they are proper. -/
theorem same_iff_agree {d e : Definitions} (hd : d.IsProper) (he : e.IsProper) :
    d.same e = true ↔ d.Agree e := by
  rw [agree_iff_normal_eq hd he, normal_eq_iff hd, ← sameNodes_iff hd.nodes he.nodes,
    ← sameTable_iff hd.tokens he.tokens, same]
  simp only [Bool.and_eq_true, decide_eq_true_eq, and_assoc]

/-- A schema agrees with its normal form. -/
theorem normal_agree {d : Definitions} (hd : d.IsProper) : d.normal.Agree d := by
  rw [agree_iff_normal_eq hd.normal hd, normal_eq_iff hd.normal]
  refine ⟨rfl, ?_, Spelling.perm_sortEntries d.tokens.entries⟩
  rw [normal, List.map_map]
  exact List.map_congr_left fun n hn ↦ (hd.nodes n hn).normal_normal

end Definitions
end NodeSchema
