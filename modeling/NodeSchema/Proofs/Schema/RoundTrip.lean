import NodeSchema.Proofs.Json.RoundTrip
import NodeSchema.Proofs.Result
import NodeSchema.Proofs.Schema.Agreement
import NodeSchema.Schema.Json
import NodeSchema.Schema.Read

/-!
# Schemas are read back from their text

A schema whose features have an order is written as the JSON of its normal form.  It is read as the
normal form if it could have been read before (`Definitions.IsRead`): nothing is lost but the order
of features and of tokens, which does not count.  The proper schemas (`Definitions.IsProper`) are
such schemas, and two of them have the same text iff they agree.

A writer that leaves members out — the features of a node that has none, the members of an opaque
node, the mark of a node that is exhaustive — is read back because the reader supplies exactly what
was left out (`Node.ofJson_asJson`).
-/

set_option autoImplicit false

namespace NodeSchema

/-! ## Types -/

namespace SchemaType

mutual
theorem isReadable_toJson : ∀ t : SchemaType, t.toJson.IsReadable
  | .node name | .std name | .external name | .token name | .group name =>
    .object (List.nodup_singleton _) (List.forall_mem_singleton.mpr (.string name))
  | .punctuated element separator => by
    refine .object (List.nodup_singleton _) (List.forall_mem_singleton.mpr ?_)
    refine .object (by simp) (List.forall_mem_cons.mpr ⟨isReadable_toJson element, ?_⟩)
    exact List.forall_mem_singleton.mpr (.string separator)
  | .option inner | .box inner | .vec inner =>
    .object (List.nodup_singleton _) (List.forall_mem_singleton.mpr (isReadable_toJson inner))
  | .tuple elements =>
    .object (List.nodup_singleton _)
      (List.forall_mem_singleton.mpr (.array (isReadable_toJsonAll elements)))
theorem isReadable_toJsonAll : ∀ ts : List SchemaType, ∀ v ∈ toJsonAll ts, v.IsReadable
  | [] => List.forall_mem_nil _
  | t :: ts => List.forall_mem_cons.mpr ⟨isReadable_toJson t, isReadable_toJsonAll ts⟩
end

mutual
/-- **A type is read from its JSON.** -/
theorem ofJson_toJson : ∀ t : SchemaType, ofJson t.toJson = .ok t
  | .node _ | .std _ | .external _ | .token _ | .group _ => rfl
  | .punctuated element separator => by
    have helement : ofElement [("element", element.toJson), ("punct", .string separator)] =
        .ok element := ofJson_toJson element
    show (ofElement [("element", element.toJson), ("punct", .string separator)]).map _ = _
    rw [helement]
    rfl
  | .option inner => congrArg (Except.map SchemaType.option) (ofJson_toJson inner)
  | .box inner => congrArg (Except.map SchemaType.box) (ofJson_toJson inner)
  | .vec inner => congrArg (Except.map SchemaType.vec) (ofJson_toJson inner)
  | .tuple elements => congrArg (Except.map SchemaType.tuple) (ofJsonAll_toJsonAll elements)
theorem ofJsonAll_toJsonAll : ∀ ts : List SchemaType, ofJsonAll (toJsonAll ts) = .ok ts
  | [] => rfl
  | t :: ts => by
    rw [toJsonAll, ofJsonAll, ofJson_toJson t, ofJsonAll_toJsonAll ts]
    rfl
end

end SchemaType

/-! ## Nodes -/

namespace Node

/-- The features of a node as JSON, as they stand. -/
def featuresAsJson (fs : List FeatureName) : Json :=
  .object (if fs.isEmpty then [] else [("any", .array (fs.map FeatureName.toJson))])

/-- The members of the JSON of a node, its features as they stand. -/
def asMembers (n : Node) : List (String × Json) :=
  [("ident", .string n.ident), ("features", featuresAsJson n.features)] ++ dataJson n.data
    ++ (if n.exhaustive then [] else [("exhaustive", .bool false)])

/-- A node as JSON, its features as they stand. -/
def asJson (n : Node) : Json := .object n.asMembers

/-- What holds of a node that was read: its features are readable and each stands once, and no name
has two members. -/
structure IsRead (n : Node) : Prop where
  features : ∀ f ∈ n.features, f.toJson.IsReadable
  distinct : n.features.Pairwise fun f g ↦ FeatureName.same f g = false
  members : n.data.names.Nodup

theorem IsProper.isRead {n : Node} (hn : n.IsProper) : n.IsRead := by
  obtain ⟨names, hnodup, hfeatures⟩ := hn.features
  refine ⟨fun f hf ↦ ?_, ?_, hn.members⟩
  · obtain ⟨s, -, rfl⟩ := List.mem_map.mp (hfeatures ▸ hf)
    exact .string s
  · rw [hfeatures]
    refine List.pairwise_map.mpr (hnodup.imp fun hne ↦ ?_)
    simpa [FeatureName.same] using hne

/-- The features of a node have an order. -/
def IsOrdered (n : Node) : Prop := (FeatureName.sort? n.features).isSome

theorem IsProper.isOrdered {n : Node} (hn : n.IsProper) : n.IsOrdered := by
  obtain ⟨names, -, hfeatures⟩ := hn.features
  rw [IsOrdered, hfeatures, FeatureName.sort?_names]
  rfl

theorem perm_normal_features (n : Node) : n.normal.features.Perm n.features := by
  rw [normal]
  cases hsorted : FeatureName.sort? n.features with
  | none => exact List.Perm.refl _
  | some sorted => exact FeatureName.perm_of_sort? hsorted

theorem IsRead.normal {n : Node} (hn : n.IsRead) : n.normal.IsRead where
  features f hf := hn.features f ((perm_normal_features n).subset hf)
  distinct := by
    refine ((perm_normal_features n).pairwise_iff fun h ↦ ?_).mpr hn.distinct
    rwa [FeatureName.same_comm]
  members := hn.members

/-- A node whose features have an order is written in its normal form. -/
theorem IsOrdered.toJson?_eq {n : Node} (hn : n.IsOrdered) : n.toJson? = some n.normal.asJson := by
  obtain ⟨sorted, hsorted⟩ := Option.isSome_iff_exists.mp hn
  have hwritten : featuresJson? n.features = some (featuresAsJson n.normal.features) := by
    have hnormal : n.normal.features = sorted := by rw [Node.normal, hsorted]; rfl
    have hempty := (FeatureName.perm_of_sort? hsorted).isEmpty_eq
    rw [featuresJson?, featuresAsJson, hnormal, hsorted, hempty]
    cases n.features.isEmpty <;> rfl
  rw [toJson?, hwritten]
  rfl

theorem dataJson_fields {fs : List (String × SchemaType)} (h : (fs.map Prod.fst).Nodup) :
    dataJson (.fields fs) = [("fields", .object (fs.map fun f ↦ (f.1, f.2.toJson)))] := by
  rw [dataJson, Table.entries_ofPairs]
  rwa [List.map_map]

theorem dataJson_variants {vs : List (String × List SchemaType)} (h : (vs.map Prod.fst).Nodup) :
    dataJson (.variants vs) =
      [("variants", .object (vs.map fun v ↦ (v.1, .array (v.2.map SchemaType.toJson))))] := by
  rw [dataJson, Table.entries_ofPairs]
  rwa [List.map_map]

theorem readFields_toJson (fs : List (String × SchemaType)) :
    readFields (fs.map fun f ↦ (f.1, f.2.toJson)) = .ok fs := by
  induction fs with
  | nil => rfl
  | cons f fs ih =>
    rw [List.map_cons, readFields, SchemaType.ofJson_toJson, ih]
    rfl

theorem readVariants_toJson (vs : List (String × List SchemaType)) :
    readVariants (vs.map fun v ↦ (v.1, .array (v.2.map SchemaType.toJson))) = .ok vs := by
  induction vs with
  | nil => rfl
  | cons v vs ih =>
    rw [List.map_cons, readVariants, ih, ← SchemaType.toJsonAll_eq_map]
    show (SchemaType.ofJsonAll (SchemaType.toJsonAll v.2) >>= fun ts ↦ _) = _
    rw [SchemaType.ofJsonAll_toJsonAll]
    rfl

theorem readData_asMembers {n : Node} (hn : n.IsRead) : readData n.asMembers = .ok n.data := by
  obtain ⟨ident, features, data, exhaustive⟩ := n
  have hmembers := hn.members
  cases data with
  | fields fs =>
    have hfields : Json.member? (asMembers ⟨ident, features, .fields fs, exhaustive⟩) "fields" =
        some (.object (fs.map fun f ↦ (f.1, f.2.toJson))) := by
      simp [asMembers, dataJson_fields hmembers, Json.member?]
    simp only [readData, hfields, readFields_toJson]
    rfl
  | variants vs =>
    have hfields : Json.member? (asMembers ⟨ident, features, .variants vs, exhaustive⟩)
        "fields" = none := by
      cases exhaustive <;> simp [asMembers, dataJson_variants hmembers, Json.member?]
    have hvariants : Json.member? (asMembers ⟨ident, features, .variants vs, exhaustive⟩)
        "variants" = some (.object (vs.map fun v ↦ (v.1, .array (v.2.map SchemaType.toJson)))) := by
      simp [asMembers, dataJson_variants hmembers, Json.member?]
    simp only [readData, hfields, hvariants, readVariants_toJson]
    rfl
  | opaque_ =>
    have hmember (name : String) (hne : name ≠ "ident" ∧ name ≠ "features" ∧ name ≠ "exhaustive") :
        Json.member? (asMembers ⟨ident, features, .opaque_, exhaustive⟩) name = none := by
      obtain ⟨hident, hfeatures, hexhaustive⟩ := hne
      cases exhaustive <;>
        simp [asMembers, dataJson, Json.member?, hident.symm, hfeatures.symm, hexhaustive.symm]
    simp only [readData, hmember "fields" (by decide), hmember "variants" (by decide)]

theorem readFeatures_asMembers {n : Node} (hn : n.IsRead) :
    readFeatures n.asMembers = .ok n.features := by
  have hmember : Json.member? n.asMembers "features" = some (featuresAsJson n.features) := rfl
  have hread : (n.features.map FeatureName.toJson).mapM readFeature = .ok n.features := by
    have hfeature (f : FeatureName) : readFeature f.toJson = .ok f := by cases f <;> rfl
    rw [List.mapM_map]
    exact (mapM_eq_pure (g := id) fun f _ ↦ hfeature f).trans (congrArg _ (List.map_id _))
  have hdistinct := FeatureName.distinct_eq hn.distinct
  rw [readFeatures, hmember]
  generalize n.features = features at *
  cases features with
  | nil => rfl
  | cons f fs =>
    show (((f :: fs).map FeatureName.toJson).mapM readFeature >>= fun fs ↦
      Except.ok (FeatureName.distinct fs)) = _
    rw [hread]
    exact congrArg Except.ok hdistinct

theorem readExhaustive_asMembers (n : Node) :
    ((Json.member? n.asMembers "exhaustive").getD (.bool true)).isTruthy = n.exhaustive := by
  obtain ⟨ident, features, data, exhaustive⟩ := n
  cases data <;> cases exhaustive <;> rfl

/-- **A node is read from its JSON**: what the writer leaves out, the reader supplies. -/
theorem ofJson_asJson {n : Node} (hn : n.IsRead) : ofJson n.asJson = .ok n := by
  have hident : Json.member? n.asMembers "ident" = some (.string n.ident) := rfl
  simp only [ofJson, asJson, hident, readData_asMembers hn, readFeatures_asMembers hn,
    readExhaustive_asMembers]
  rfl

theorem isReadable_featuresAsJson {fs : List FeatureName} (h : ∀ f ∈ fs, f.toJson.IsReadable) :
    (featuresAsJson fs).IsReadable := by
  cases fs with
  | nil => exact .object List.nodup_nil (List.forall_mem_nil _)
  | cons f fs =>
    refine .object (List.nodup_singleton _) (List.forall_mem_singleton.mpr (.array ?_))
    intro v hv
    obtain ⟨g, hg, rfl⟩ := List.mem_map.mp hv
    exact h g hg

theorem isReadable_dataJson {data : NodeData} (h : data.names.Nodup) :
    ∀ m ∈ dataJson data, m.2.IsReadable := by
  cases data with
  | fields fs =>
    rw [dataJson_fields h, List.forall_mem_singleton]
    refine .object (by rwa [List.map_map]) fun m hm ↦ ?_
    obtain ⟨f, -, rfl⟩ := List.mem_map.mp hm
    exact SchemaType.isReadable_toJson f.2
  | variants vs =>
    rw [dataJson_variants h, List.forall_mem_singleton]
    refine .object (by rwa [List.map_map]) fun m hm ↦ ?_
    obtain ⟨v, -, rfl⟩ := List.mem_map.mp hm
    rw [← SchemaType.toJsonAll_eq_map]
    exact .array (SchemaType.isReadable_toJsonAll v.2)
  | opaque_ => exact List.forall_mem_nil _

theorem isReadable_asJson {n : Node} (hn : n.IsRead) : n.asJson.IsReadable := by
  refine .object ?_ ?_
  · obtain ⟨ident, features, data, exhaustive⟩ := n
    cases data <;> cases exhaustive <;> simp [asMembers, dataJson]
  · intro m hm
    rw [asMembers, List.mem_append, List.mem_append] at hm
    rcases hm with (hm | hm) | hm
    · rcases List.mem_cons.mp hm with rfl | hm
      · exact .string n.ident
      · rw [List.mem_singleton.mp hm]
        exact isReadable_featuresAsJson hn.features
    · exact isReadable_dataJson hn.members m hm
    · cases hexhaustive : n.exhaustive with
      | true => simp [hexhaustive] at hm
      | false =>
        rw [hexhaustive] at hm
        rw [List.mem_singleton.mp hm]
        exact .bool false

end Node

/-! ## Schemas -/

namespace Definitions

/-- A schema as JSON, its features and tokens as they stand. -/
def asJson (d : Definitions) : Json :=
  .object [("version", .string d.version), ("types", .array (d.nodes.map Node.asJson)),
    ("tokens", .object (d.tokens.entries.map fun e ↦ (e.1, .string e.2)))]

/-- What holds of a schema that was read: every node was read, and no symbol has two spellings. -/
structure IsRead (d : Definitions) : Prop where
  nodes : ∀ n ∈ d.nodes, n.IsRead
  tokens : d.tokens.IsMap

theorem IsProper.isRead {d : Definitions} (hd : d.IsProper) : d.IsRead :=
  ⟨fun n hn ↦ (hd.nodes n hn).isRead, hd.tokens⟩

theorem IsRead.normal {d : Definitions} (hd : d.IsRead) : d.normal.IsRead := by
  refine ⟨fun n hn ↦ ?_, Spelling.nodup_names_sortEntries hd.tokens⟩
  obtain ⟨m, hm, rfl⟩ := List.mem_map.mp hn
  exact (hd.nodes m hm).normal

/-- The features of all nodes have an order. -/
def IsOrdered (d : Definitions) : Prop := ∀ n ∈ d.nodes, n.IsOrdered

theorem IsProper.isOrdered {d : Definitions} (hd : d.IsProper) : d.IsOrdered :=
  fun n hn ↦ (hd.nodes n hn).isOrdered

theorem isReadable_asJson {d : Definitions} (hd : d.IsRead) : d.asJson.IsReadable := by
  refine .object (by simp) (List.forall_mem_cons.mpr ⟨.string d.version,
    List.forall_mem_cons.mpr ⟨.array fun v hv ↦ ?_, List.forall_mem_singleton.mpr ?_⟩⟩)
  · obtain ⟨n, hn, rfl⟩ := List.mem_map.mp hv
    exact Node.isReadable_asJson (hd.nodes n hn)
  · refine .object ?_ fun m hm ↦ ?_
    · rw [List.map_map]
      exact hd.tokens
    · obtain ⟨e, -, rfl⟩ := List.mem_map.mp hm
      exact .string e.2

theorem ofJson_asJson {d : Definitions} (hd : d.IsRead) : ofJson d.asJson = .ok d := by
  have hnodes : (d.nodes.map Node.asJson).mapM Node.ofJson = .ok d.nodes := by
    rw [List.mapM_map]
    refine (mapM_eq_pure (g := id) fun n hn ↦ Node.ofJson_asJson (hd.nodes n hn)).trans ?_
    rw [List.map_id]
    rfl
  have htokens : (d.tokens.entries.map fun e ↦ (e.1, Json.string e.2)).map
      (fun t ↦ (t.1, t.2.asText)) = d.tokens.entries := by
    rw [List.map_map]
    exact List.map_id _
  show ((d.nodes.map Node.asJson).mapM Node.ofJson >>= fun nodes ↦
    Except.ok (⟨d.version, nodes, ⟨(d.tokens.entries.map fun e ↦ (e.1, Json.string e.2)).map
      fun t ↦ (t.1, t.2.asText)⟩⟩ : Definitions)) = _
  rw [hnodes, htokens]
  rfl

/-- The text of a schema whose features have an order is that of its normal form. -/
theorem IsOrdered.print_eq {d : Definitions} (hd : d.IsOrdered) :
    d.print = .ok (String.ofList (d.normal.asJson.print ++ ['\n'])) := by
  have hnodes : d.nodes.mapM Node.toJson? = some (d.nodes.map fun n ↦ n.normal.asJson) :=
    mapM_eq_pure fun n hn ↦ (hd n hn).toJson?_eq
  have hwritten : d.toJson? = some d.normal.asJson := by
    rw [toJson?, hnodes, asJson, normal, List.map_map]
    rfl
  rw [print, hwritten]

/-- What was read is read again from the text of its normal form. -/
theorem IsRead.read_asJson {d : Definitions} (hd : d.IsRead) :
    read (String.ofList (d.asJson.print ++ ['\n'])) = .ok d := by
  rw [read, String.toList_ofList, Json.read_print (isReadable_asJson hd)]
  exact ofJson_asJson hd

/-- The text of a proper schema is that of its normal form. -/
theorem print_eq {d : Definitions} (hd : d.IsProper) :
    d.print = .ok (String.ofList (d.normal.asJson.print ++ ['\n'])) := hd.isOrdered.print_eq

/-- The text of a proper schema is read as its normal form. -/
theorem read_print {d : Definitions} (hd : d.IsProper) {text : String}
    (h : d.print = .ok text) : read text = .ok d.normal := by
  rw [print_eq hd] at h
  rw [← Except.ok.inj h]
  exact hd.isRead.normal.read_asJson

/-- Two proper schemas have the same text iff they have the same normal form. -/
theorem print_eq_iff {d e : Definitions} (hd : d.IsProper) (he : e.IsProper) :
    d.print = e.print ↔ d.normal = e.normal := by
  constructor
  · intro h
    have hread := read_print he (h ▸ print_eq hd)
    rw [read_print hd (print_eq hd)] at hread
    exact Except.ok.inj hread
  · intro h
    rw [print_eq hd, print_eq he, h]

/-- **A schema is read back from its text.**  Every proper schema has a text, which is read as a
schema that agrees with it; and two proper schemas have the same text iff they agree, which is what
the comparison of schemas decides. -/
theorem read_print_agree (d : Definitions) (hd : d.IsProper) :
    (∃ text e, d.print = .ok text ∧ read text = .ok e ∧ e.Agree d) ∧
      ∀ d', d'.IsProper → (d.print = d'.print ↔ d.Agree d') ∧
        (d.same d' = true ↔ d.Agree d') := by
  refine ⟨⟨_, d.normal, print_eq hd, read_print hd (print_eq hd), normal_agree hd⟩,
    fun d' hd' ↦ ⟨?_, same_iff_agree hd hd'⟩⟩
  rw [print_eq_iff hd hd', agree_iff_normal_eq hd hd']

/-- A schema with every kind of type and data, and with tokens and features out of order. -/
def sample : Definitions :=
  ⟨"2.0.\"1\"",
    [⟨"Expr", [.name "full", .name "derive"], .variants
        [("Path", [.node "Path", .option (.box (.node "Expr"))]), ("Verbatim", [])], false⟩,
      ⟨"Path", [], .fields
        [("leading", .option (.token "PathSep")),
          ("segments", .punctuated (.tuple [.external "Ident", .std "bool"]) "PathSep"),
          ("paren", .vec (.group "Paren"))], true⟩,
      ⟨"Lifetime", [.name "full"], .opaque_, true⟩],
    ⟨[("PathSep", "::"), ("Crab", "🦀\\\n")]⟩⟩

/-- The same schema with its tokens and features the other way round. -/
def sampleReversed : Definitions :=
  { sample with
    nodes := sample.nodes.map fun n ↦ { n with features := n.features.reverse }
    tokens := ⟨sample.tokens.entries.reverse⟩ }

theorem isProper_sample : sample.IsProper := by
  refine ⟨?_, by decide⟩
  simp only [sample, List.forall_mem_cons, List.not_mem_nil, false_implies, implies_true, and_true]
  exact ⟨⟨⟨["full", "derive"], by decide, rfl⟩, by decide⟩, ⟨⟨[], by decide, rfl⟩, by decide⟩,
    ⟨⟨["full"], by decide, rfl⟩, by decide⟩⟩

theorem isProper_sampleReversed : sampleReversed.IsProper := by
  refine ⟨?_, by decide⟩
  simp only [sampleReversed, sample, List.map_cons, List.map_nil, List.forall_mem_cons,
    List.not_mem_nil, false_implies, implies_true, and_true]
  exact ⟨⟨⟨["derive", "full"], by decide, rfl⟩, by decide⟩, ⟨⟨[], by decide, rfl⟩, by decide⟩,
    ⟨⟨["full"], by decide, rfl⟩, by decide⟩⟩

theorem read_print_agree_sample : sample.IsProper ∧ sampleReversed.IsProper ∧
    (∃ text e, sample.print = .ok text ∧ read text = .ok e ∧ e.Agree sample) ∧
      (sample.print = sampleReversed.print ↔ sample.Agree sampleReversed) ∧
      (sample.same sampleReversed = true ↔ sample.Agree sampleReversed) := by
  obtain ⟨hread, hprint⟩ := read_print_agree sample isProper_sample
  exact ⟨isProper_sample, isProper_sampleReversed, hread,
    hprint sampleReversed isProper_sampleReversed⟩

end Definitions
end NodeSchema
