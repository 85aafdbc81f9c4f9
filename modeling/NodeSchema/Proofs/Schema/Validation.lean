import NodeSchema.Proofs.Json.Readable
import NodeSchema.Proofs.Schema.RoundTrip

/-!
# Which texts are validated

A text is validated (`Definitions.Validates`) if it is refused as a bad schema text, or read as a
schema that can be written and is read again as itself.  This file says exactly which texts are:
those in which the reader, and the writer after it, meet none of the values that they use without a
look at their kind (`Definitions.TripsOver`).

* **Refusals.**  Every failure to read is a bad schema text or a fault of the kind of a value
  (`FailsByKind`); a type is always looked at (`SchemaType.category_of_ofJson`), so the fault comes
  from the types of a variant or from the features of a node (`Node.ofJson_eq_wrongType_iff`).
* **Schemas.**  What is read from a value that was read is a schema of the kind that can be read
  again (`Definitions.isRead_of_ofJson`), and it is written iff the features of each node have an
  order (`Definitions.exists_print_iff`).
-/

set_option autoImplicit false

namespace NodeSchema

variable {α β : Type}

/-! ## Failures to read -/

/-- Every failure is a bad schema text, or a value of a kind that was not looked at. -/
def FailsByKind (x : Except Failure α) : Prop :=
  ∀ e, x = .error e → e.category = .schema ∨ e = .unreported .wrongType

theorem failsByKind_ok (a : α) : FailsByKind (.ok a : Except Failure α) := by
  intro e h
  cases h

theorem failsByKind_error {e : Failure} (h : e.category = .schema) :
    FailsByKind (.error e : Except Failure α) := by
  intro e' he'
  rw [← Except.error.inj he']
  exact .inl h

theorem FailsByKind.bind {x : Except Failure α} {f : α → Except Failure β} (hx : FailsByKind x)
    (hf : ∀ a, FailsByKind (f a)) : FailsByKind (x >>= f) := by
  intro e h
  rcases bind_eq_error.mp h with h | ⟨a, -, h⟩
  · exact hx e h
  · exact hf a e h

theorem FailsByKind.map {x : Except Failure α} (hx : FailsByKind x) (f : α → β) :
    FailsByKind (x.map f) := by
  intro e h
  exact hx e (map_eq_error.mp h)

theorem FailsByKind.mapM {f : α → Except Failure β} (hf : ∀ a, FailsByKind (f a)) (as : List α) :
    FailsByKind (as.mapM f) := by
  intro e h
  obtain ⟨before, a, after, -, -, ha⟩ := mapM_eq_error.mp h
  exact hf a e ha

/-! ## Types -/

namespace SchemaType

mutual
/-- Whatever is read as a type is looked at. -/
theorem category_of_ofJson {e : Failure} : ∀ v : Json, ofJson v = .error e → e.category = .schema
  | .object [(tag, value)], h => by
    simp only [ofJson] at h
    split_ifs at h
    · exact category_of_ofJson value (map_eq_error.mp h)
    · exact category_of_ofJson value (map_eq_error.mp h)
    · exact category_of_ofJson value (map_eq_error.mp h)
    · exact category_of_ofPunctuated tag value h
    · exact category_of_ofTuple tag value h
    · rw [← Except.error.inj h]; rfl
  | .object [], h | .object (_ :: _ :: _), h | .null, h | .bool _, h | .int _, h | .float _, h
  | .string _, h | .array _, h => by
    rw [← Except.error.inj h]; rfl
theorem category_of_ofPunctuated {e : Failure} (tag : String) :
    ∀ v : Json, ofPunctuated tag v = .error e → e.category = .schema
  | .object members, h => by
    exact category_of_ofElement members (map_eq_error.mp h)
  | .null, h | .bool _, h | .int _, h | .float _, h | .string _, h | .array _, h => by
    rw [← Except.error.inj h]; rfl
theorem category_of_ofElement {e : Failure} :
    ∀ members : List (String × Json), ofElement members = .error e → e.category = .schema
  | [], h => by
    rw [← Except.error.inj h]; rfl
  | (name, value) :: rest, h => by
    rw [ofElement] at h
    split_ifs at h
    · exact category_of_ofJson value h
    · exact category_of_ofElement rest h
theorem category_of_ofTuple {e : Failure} (tag : String) :
    ∀ v : Json, ofTuple tag v = .error e → e.category = .schema
  | .array items, h => by
    exact category_of_ofJsonAll items (map_eq_error.mp h)
  | .null, h | .bool _, h | .int _, h | .float _, h | .string _, h | .object _, h => by
    rw [← Except.error.inj h]; rfl
theorem category_of_ofJsonAll {e : Failure} :
    ∀ items : List Json, ofJsonAll items = .error e → e.category = .schema
  | [], h => by cases h
  | v :: vs, h => by
    rcases bind_eq_error.mp h with hv | ⟨t, -, h⟩
    · exact category_of_ofJson v hv
    · rcases bind_eq_error.mp h with hvs | ⟨ts, -, h⟩
      · exact category_of_ofJsonAll vs hvs
      · cases h
end

/-- A failure to read types is no fault of kind. -/
theorem ofJsonAll_ne_wrongType (items : List Json) :
    ofJsonAll items ≠ .error (.unreported .wrongType) := by
  intro h
  exact absurd (category_of_ofJsonAll items h) (by decide)

end SchemaType

/-! ## Values that are used without a look at their kind -/

namespace Json

/-- The value can be gone through: it is a list, a string or an object. -/
def IsListing : Json → Prop
  | .array _ | .string _ | .object _ => True
  | _ => False

/-- The value can be an element of a set: it is neither a list nor an object. -/
def IsScalar : Json → Prop
  | .array _ | .object _ => False
  | _ => True

end Json

namespace Node

theorem itemsOf_eq_wrongType_iff {v : Json} :
    itemsOf v = .error (.unreported .wrongType) ↔ ¬ v.IsListing := by
  cases v <;> simp [itemsOf, Json.IsListing]

theorem failsByKind_itemsOf (v : Json) : FailsByKind (itemsOf v) := by
  intro e h
  cases v <;> simp_all [itemsOf]

theorem readFeature_eq_wrongType_iff {v : Json} :
    readFeature v = .error (.unreported .wrongType) ↔ ¬ v.IsScalar := by
  cases v <;> simp [readFeature, Json.IsScalar]

theorem failsByKind_readFeature (v : Json) : FailsByKind (readFeature v) := by
  intro e h
  cases v <;> simp_all [readFeature]

/-- Reads one variant. -/
def readVariant (m : String × Json) : Except Failure (String × List SchemaType) := do
  let items ← itemsOf m.2
  let ts ← SchemaType.ofJsonAll items
  pure (m.1, ts)

theorem readVariants_eq_mapM (ms : List (String × Json)) :
    readVariants ms = ms.mapM readVariant := by
  induction ms with
  | nil => rfl
  | cons m ms ih =>
    rw [readVariants, ih, List.mapM_cons, readVariant]
    simp only [bind_assoc, pure_bind]
    rfl

/-- Reads one field. -/
def readField (m : String × Json) : Except Failure (String × SchemaType) := do
  let t ← SchemaType.ofJson m.2
  pure (m.1, t)

theorem readFields_eq_mapM (ms : List (String × Json)) : readFields ms = ms.mapM readField := by
  induction ms with
  | nil => rfl
  | cons m ms ih =>
    rw [readFields, ih, List.mapM_cons, readField]
    simp only [bind_assoc, pure_bind]
    rfl

theorem readVariant_eq_wrongType_iff {m : String × Json} :
    readVariant m = .error (.unreported .wrongType) ↔ ¬ m.2.IsListing := by
  rw [readVariant, bind_eq_error, itemsOf_eq_wrongType_iff, or_iff_left]
  rintro ⟨items, -, h⟩
  rcases bind_eq_error.mp h with h | ⟨ts, -, h⟩
  · exact SchemaType.ofJsonAll_ne_wrongType items h
  · cases h

theorem failsByKind_readVariants (ms : List (String × Json)) : FailsByKind (readVariants ms) := by
  rw [readVariants_eq_mapM]
  refine FailsByKind.mapM (fun m ↦ (failsByKind_itemsOf m.2).bind fun items ↦ ?_) ms
  exact FailsByKind.bind (fun e h ↦ .inl (SchemaType.category_of_ofJsonAll items h))
    fun ts ↦ failsByKind_ok _

theorem category_of_readFields {ms : List (String × Json)} {e : Failure}
    (h : readFields ms = .error e) : e.category = .schema := by
  rw [readFields_eq_mapM] at h
  obtain ⟨before, m, after, -, -, hm⟩ := mapM_eq_error.mp h
  rcases bind_eq_error.mp hm with h | ⟨t, -, h⟩
  · exact SchemaType.category_of_ofJson m.2 h
  · cases h

/-- The reader comes to a variant whose types are nothing that can be gone through. -/
def TripsOnVariants (members : List (String × Json)) : Prop :=
  (∀ fields, Json.member? members "fields" ≠ some (.object fields)) ∧
    ∃ before name value after,
      Json.member? members "variants" = some (.object (before ++ (name, value) :: after)) ∧
        (∃ vs, readVariants before = .ok vs) ∧ ¬ value.IsListing

/-- The features are nothing that can be gone through, or one of them can be in no set. -/
def TripsOnFeatures (members : List (String × Json)) : Prop :=
  ∃ features listed, Json.member? members "features" = some (.object features) ∧
    Json.member? features "any" = some listed ∧
      (¬ listed.IsListing ∨ ∃ items, listed = .array items ∧ ∃ item ∈ items, ¬ item.IsScalar)

/-- The reader comes to a value in a node that it uses without a look at its kind. -/
def TripsOn (v : Json) : Prop :=
  ∃ members ident, v = .object members ∧ Json.member? members "ident" = some (.string ident) ∧
    (TripsOnVariants members ∨ (∃ data, readData members = .ok data) ∧ TripsOnFeatures members)

theorem readData_eq_wrongType_iff {members : List (String × Json)} :
    readData members = .error (.unreported .wrongType) ↔ TripsOnVariants members := by
  rw [readData.eq_def]
  split
  · next fields hfields =>
    rw [map_eq_error]
    refine iff_of_false (fun h ↦ absurd (category_of_readFields h) (by decide)) ?_
    exact fun h ↦ h.1 fields hfields
  · next hfields =>
    split
    · next variants hvariants =>
      rw [map_eq_error, readVariants_eq_mapM, mapM_eq_error]
      constructor
      · rintro ⟨before, m, after, rfl, ⟨vs, hvs⟩, hm⟩
        exact ⟨hfields, before, m.1, m.2, after, hvariants,
          ⟨vs, (readVariants_eq_mapM _).trans hvs⟩, readVariant_eq_wrongType_iff.mp hm⟩
      · rintro ⟨-, before, name, value, after, hmember, ⟨vs, hvs⟩, hvalue⟩
        rw [hvariants] at hmember
        cases hmember
        exact ⟨before, (name, value), after, rfl, ⟨vs, (readVariants_eq_mapM _).symm.trans hvs⟩,
          readVariant_eq_wrongType_iff.mpr hvalue⟩
    · next hvariants =>
      refine iff_of_false (fun h ↦ by cases h) ?_
      rintro ⟨-, before, name, value, after, hmember, -⟩
      exact hvariants _ hmember

theorem failsByKind_readData (members : List (String × Json)) : FailsByKind (readData members) := by
  rw [readData.eq_def]
  split
  · exact FailsByKind.map (fun e h ↦ .inl (category_of_readFields h)) _
  · split
    · exact (failsByKind_readVariants _).map _
    · exact failsByKind_ok _

/-- The items of a string and of an object are strings. -/
theorem isScalar_of_itemsOf {v : Json} {items : List Json} (h : itemsOf v = .ok items) :
    v = .array items ∨ ∀ item ∈ items, item.IsScalar := by
  cases v with
  | array is => exact .inl (congrArg _ (Except.ok.inj h))
  | string s =>
    refine .inr fun item hitem ↦ ?_
    rw [← Except.ok.inj h] at hitem
    obtain ⟨c, -, rfl⟩ := List.mem_map.mp hitem
    trivial
  | object ms =>
    refine .inr fun item hitem ↦ ?_
    rw [← Except.ok.inj h] at hitem
    obtain ⟨m, -, rfl⟩ := List.mem_map.mp hitem
    trivial
  | null => cases h
  | bool b => cases h
  | int n => cases h
  | float x => cases h

theorem readFeatures_eq_wrongType_iff {members : List (String × Json)} :
    readFeatures members = .error (.unreported .wrongType) ↔ TripsOnFeatures members := by
  rw [readFeatures.eq_def]
  split
  · next features hfeatures =>
    have hiff : TripsOnFeatures members ↔ ∃ listed, Json.member? features "any" = some listed ∧
        (¬ listed.IsListing ∨
          ∃ items, listed = .array items ∧ ∃ item ∈ items, ¬ item.IsScalar) := by
      constructor
      · rintro ⟨features', listed, hmember, h⟩
        rw [hfeatures] at hmember
        cases hmember
        exact ⟨listed, h⟩
      · rintro ⟨listed, h⟩
        exact ⟨features, listed, hfeatures, h⟩
    rw [hiff]
    split
    · next listed hlisted =>
      rw [bind_eq_error, itemsOf_eq_wrongType_iff]
      simp only [hlisted, Option.some.injEq, exists_eq_left']
      refine or_congr_right ⟨?_, ?_⟩
      · rintro ⟨items, hitems, h⟩
        rcases bind_eq_error.mp h with h | ⟨fs, -, h⟩
        · obtain ⟨before, item, after, rfl, -, hitem⟩ := mapM_eq_error.mp h
          have hnot := readFeature_eq_wrongType_iff.mp hitem
          have hmem : item ∈ before ++ item :: after :=
            List.mem_append_right before (List.mem_cons_self ..)
          rcases isScalar_of_itemsOf hitems with hlist | hscalar
          · exact ⟨_, hlist, item, hmem, hnot⟩
          · exact absurd (hscalar item hmem) hnot
        · cases h
      · rintro ⟨items, rfl, item, hmem, hitem⟩
        refine ⟨items, rfl, bind_eq_error.mpr (.inl ?_)⟩
        -- the first failure is one of kind, because no feature fails otherwise
        cases hread : items.mapM readFeature with
        | error e =>
          obtain ⟨before, item', after, -, -, hitem'⟩ := mapM_eq_error.mp hread
          cases item' <;> simp_all [readFeature]
        | ok fs =>
          obtain ⟨f, -, hf⟩ := exists_of_mem_right (mapM_eq_ok.mp hread).flip hmem
          rw [readFeature_eq_wrongType_iff.mpr hitem] at hf
          cases hf
    · next hnone =>
      refine iff_of_false (fun h ↦ by cases h) ?_
      rintro ⟨listed, hlisted, -⟩
      rw [hnone] at hlisted
      cases hlisted
  · next hfeatures =>
    refine iff_of_false (fun h ↦ by cases h) ?_
    rintro ⟨features, -, hmember, -⟩
    exact hfeatures features hmember

theorem failsByKind_readFeatures (members : List (String × Json)) :
    FailsByKind (readFeatures members) := by
  rw [readFeatures.eq_def]
  split
  · split
    · refine (failsByKind_itemsOf _).bind fun items ↦ ?_
      exact (FailsByKind.mapM failsByKind_readFeature items).bind fun fs ↦ failsByKind_ok _
    · exact failsByKind_ok _
  · exact failsByKind_ok _

/-- **Where the reader of a node meets a value of the wrong kind.** -/
theorem ofJson_eq_wrongType_iff {v : Json} :
    ofJson v = .error (.unreported .wrongType) ↔ TripsOn v := by
  rw [ofJson.eq_def]
  split
  · next members =>
    have hiff : TripsOn (.object members) ↔
        ∃ ident, Json.member? members "ident" = some (.string ident) ∧
          (TripsOnVariants members ∨
            (∃ data, readData members = .ok data) ∧ TripsOnFeatures members) := by
      simp only [TripsOn, Json.object.injEq, exists_and_left, exists_eq_left']
    rw [hiff]
    split
    · next ident hident =>
      simp only [hident, Option.some.injEq, Json.string.injEq, exists_eq_left']
      rw [bind_eq_error, readData_eq_wrongType_iff]
      refine or_congr_right ⟨?_, ?_⟩
      · rintro ⟨data, hdata, h⟩
        rcases bind_eq_error.mp h with h | ⟨fs, -, h⟩
        · exact ⟨⟨data, hdata⟩, readFeatures_eq_wrongType_iff.mp h⟩
        · cases h
      · rintro ⟨⟨data, hdata⟩, h⟩
        exact ⟨data, hdata, bind_eq_error.mpr (.inl (readFeatures_eq_wrongType_iff.mpr h))⟩
    · next hident =>
      refine iff_of_false (fun h ↦ by cases h) ?_
      rintro ⟨ident, hmember, -⟩
      exact hident ident hmember
  · next hobject =>
    refine iff_of_false (fun h ↦ by cases h) ?_
    rintro ⟨members, ident, rfl, -⟩
    exact hobject members rfl

theorem failsByKind_ofJson (v : Json) : FailsByKind (ofJson v) := by
  rw [ofJson.eq_def]
  split
  · split
    · refine (failsByKind_readData _).bind fun data ↦ ?_
      exact (failsByKind_readFeatures _).bind fun fs ↦ failsByKind_ok _
    · exact failsByKind_error rfl
  · exact failsByKind_error rfl

/-! ## What is read -/

theorem itemsOf_isReadable {v : Json} (hv : v.IsReadable) {items : List Json}
    (h : itemsOf v = .ok items) : ∀ item ∈ items, item.IsReadable := by
  intro item hitem
  cases hv with
  | array hitems =>
    rw [← Except.ok.inj h] at hitem
    exact hitems item hitem
  | string s =>
    rw [← Except.ok.inj h] at hitem
    obtain ⟨c, -, rfl⟩ := List.mem_map.mp hitem
    exact .string _
  | object hnodup hmembers =>
    rw [← Except.ok.inj h] at hitem
    obtain ⟨m, -, rfl⟩ := List.mem_map.mp hitem
    exact .string _
  | null => cases h
  | bool b => cases h
  | int hn => cases h
  | float hx => cases h

/-- A feature is the value that it was read from. -/
theorem toJson_of_readFeature {v : Json} {f : FeatureName} (h : readFeature v = .ok f) :
    f.toJson = v := by
  cases v with
  | array items => cases h
  | object members => cases h
  | _ => rw [← Except.ok.inj h]; rfl

theorem isReadable_member? {members : List (String × Json)}
    (hmembers : ∀ m ∈ members, m.2.IsReadable) {name : String} {v : Json}
    (h : Json.member? members name = some v) : v.IsReadable := by
  obtain ⟨m, hm, rfl⟩ := Option.map_eq_some_iff.mp h
  exact hmembers m (List.mem_of_find?_eq_some hm)

/-- The members of a node have the names of the members of the object that they were read from. -/
theorem nodup_names_of_readData {members : List (String × Json)}
    (hmembers : ∀ m ∈ members, m.2.IsReadable) {data : NodeData}
    (h : readData members = .ok data) : data.names.Nodup := by
  have hnames {γ : Type} {f : String × Json → Except Failure (String × γ)}
      (hf : ∀ m r, f m = .ok r → r.1 = m.1) {ms : List (String × Json)} {rs : List (String × γ)}
      (hread : ms.mapM f = .ok rs) : rs.map Prod.fst = ms.map Prod.fst := by
    have hall := (mapM_eq_ok.mp hread).imp fun m r hr ↦ (hf m r hr).symm
    exact (List.forall₂_eq_eq_eq ▸ List.forall₂_map_right_iff.mpr
      (List.forall₂_map_left_iff.mpr hall)).symm
  rw [readData.eq_def] at h
  split at h
  · next fields hfields =>
    obtain ⟨fs, hfs, rfl⟩ := map_eq_ok.mp h
    rw [readFields_eq_mapM] at hfs
    have heq := hnames (fun m r hr ↦ by
      obtain ⟨t, -, ht⟩ := bind_eq_ok.mp hr
      rw [← Except.ok.inj ht]) hfs
    rw [NodeData.names, heq]
    cases isReadable_member? hmembers hfields with
    | object hnodup _ => exact hnodup
  · split at h
    · next variants hvariants =>
      obtain ⟨vs, hvs, rfl⟩ := map_eq_ok.mp h
      rw [readVariants_eq_mapM] at hvs
      have heq := hnames (fun m r hr ↦ by
        obtain ⟨items, -, hr⟩ := bind_eq_ok.mp hr
        obtain ⟨ts, -, hts⟩ := bind_eq_ok.mp hr
        rw [← Except.ok.inj hts]) hvs
      rw [NodeData.names, heq]
      cases isReadable_member? hmembers hvariants with
      | object hnodup _ => exact hnodup
    · rw [← Except.ok.inj h]
      exact List.nodup_nil

/-- The features are readable values, and each stands once. -/
theorem features_of_readFeatures {members : List (String × Json)}
    (hmembers : ∀ m ∈ members, m.2.IsReadable) {fs : List FeatureName}
    (h : readFeatures members = .ok fs) :
    (∀ f ∈ fs, f.toJson.IsReadable) ∧ fs.Pairwise fun f g ↦ FeatureName.same f g = false := by
  rw [readFeatures.eq_def] at h
  split at h
  · next features hfeatures =>
    split at h
    · next listed hlisted =>
      obtain ⟨items, hitems, h⟩ := bind_eq_ok.mp h
      obtain ⟨all, hall, h⟩ := bind_eq_ok.mp h
      rw [← Except.ok.inj h]
      have hreadable : listed.IsReadable := by
        cases isReadable_member? hmembers hfeatures with
        | object _ hfeatures' => exact isReadable_member? hfeatures' hlisted
      refine ⟨fun f hf ↦ ?_, FeatureName.pairwise_distinct all⟩
      obtain ⟨item, hitem, hread⟩ := exists_of_mem_right (mapM_eq_ok.mp hall)
        (FeatureName.mem_of_mem_distinct f hf)
      rw [toJson_of_readFeature hread]
      exact itemsOf_isReadable hreadable hitems item hitem
    · rw [← Except.ok.inj h]
      exact ⟨List.forall_mem_nil _, List.Pairwise.nil⟩
  · rw [← Except.ok.inj h]
    exact ⟨List.forall_mem_nil _, List.Pairwise.nil⟩

theorem isRead_of_ofJson {v : Json} (hv : v.IsReadable) {n : Node} (h : ofJson v = .ok n) :
    n.IsRead := by
  cases hv with
  | object hnodup hmembers =>
    rw [ofJson.eq_def] at h
    dsimp only at h
    split at h
    · obtain ⟨data, hdata, h⟩ := bind_eq_ok.mp h
      obtain ⟨fs, hfs, h⟩ := bind_eq_ok.mp h
      rw [← Except.ok.inj h]
      obtain ⟨hreadable, hdistinct⟩ := features_of_readFeatures hmembers hfs
      exact ⟨hreadable, hdistinct, nodup_names_of_readData hmembers hdata⟩
    · cases h
  | _ => cases h

/-- A node is written only if its features have an order. -/
theorem isOrdered_of_toJson? {n : Node} {v : Json} (h : n.toJson? = some v) : n.IsOrdered := by
  obtain ⟨features, hfeatures, -⟩ := Option.bind_eq_some_iff.mp h
  rw [featuresJson?] at hfeatures
  split at hfeatures
  · next hempty =>
    rw [IsOrdered, List.isEmpty_iff.mp hempty]
    rfl
  · obtain ⟨sorted, hsorted, -⟩ := Option.map_eq_some_iff.mp hfeatures
    exact Option.isSome_iff_exists.mpr ⟨sorted, hsorted⟩

/-- The normal form of a node says the same as the node. -/
theorem same_normal (n : Node) : n.normal.same n = true := by
  have hperm := perm_normal_features n
  have hsame : FeatureName.sameSet n.normal.features n.features = true := by
    rw [FeatureName.sameSet, Bool.and_eq_true, decide_eq_true_eq, List.all_eq_true]
    refine ⟨hperm.length_eq, fun f hf ↦ List.any_eq_true.mpr ⟨f, hperm.subset hf, ?_⟩⟩
    exact FeatureName.same_self f
  rw [same, hsame]
  simp [normal]

end Node

/-! ## Schemas -/

namespace Definitions

theorem isRead_of_ofJson {v : Json} (hv : v.IsReadable) {d : Definitions}
    (h : ofJson v = .ok d) : d.IsRead := by
  cases hv with
  | object hnodup hmembers =>
    rw [ofJson.eq_def] at h
    dsimp only at h
    split at h
    · next types tokens htypes htokens =>
      obtain ⟨nodes, hnodes, h⟩ := bind_eq_ok.mp h
      rw [← Except.ok.inj h]
      refine ⟨fun n hn ↦ ?_, ?_⟩
      · obtain ⟨t, ht, hread⟩ := exists_of_mem_right (mapM_eq_ok.mp hnodes) hn
        cases Node.isReadable_member? hmembers htypes with
        | array hitems => exact Node.isRead_of_ofJson (hitems t ht) hread
      · cases Node.isReadable_member? hmembers htokens with
        | object hnodup _ =>
          rw [Table.IsMap, Table.names, List.map_map]
          exact hnodup
    · cases h
  | _ => cases h

theorem isRead_of_read {text : String} {d : Definitions} (h : read text = .ok d) : d.IsRead := by
  rw [read] at h
  split at h
  · next v hv => exact isRead_of_ofJson (Json.isReadable_of_read hv) h
  · cases h
  · cases h

/-- The normal form of a schema says the same as the schema. -/
theorem same_normal {d : Definitions} (hd : d.tokens.IsMap) : d.normal.same d = true := by
  have hnodes (ns : List Node) : sameNodes (ns.map Node.normal) ns = true := by
    induction ns with
    | nil => rfl
    | cons n ns ih => rw [List.map_cons, sameNodes, Node.same_normal, ih]; rfl
  have htokens : sameTable d.normal.tokens d.tokens = true :=
    (sameTable_iff (Spelling.nodup_names_sortEntries hd) hd).mpr
      (Spelling.perm_sortEntries d.tokens.entries)
  rw [same, htokens, show d.normal.nodes = d.nodes.map Node.normal from rfl, hnodes]
  simp [normal]

/-- A schema is written iff the features of all nodes have an order. -/
theorem exists_print_iff {d : Definitions} : (∃ printed, d.print = .ok printed) ↔ d.IsOrdered := by
  refine ⟨?_, fun h ↦ ⟨_, h.print_eq⟩⟩
  rintro ⟨printed, h⟩
  rw [print] at h
  split at h
  · next v hv =>
    obtain ⟨nodes, hnodes, -⟩ := Option.bind_eq_some_iff.mp hv
    intro n hn
    obtain ⟨w, hw⟩ : ∃ w, n.toJson? = some w := by
      clear hv h
      generalize d.nodes = ns at hnodes hn
      induction ns generalizing nodes with
      | nil => cases hn
      | cons m ms ih =>
        rw [List.mapM_cons] at hnodes
        obtain ⟨w, hw, hnodes⟩ := Option.bind_eq_some_iff.mp hnodes
        obtain ⟨ws, hws, -⟩ := Option.bind_eq_some_iff.mp hnodes
        rcases List.mem_cons.mp hn with rfl | hn
        · exact ⟨w, hw⟩
        · exact ih ws hws hn
    exact Node.isOrdered_of_toJson? hw
  · cases h

/-- The reader comes to a value that it uses without a look at its kind. -/
def TripsOn (v : Json) : Prop :=
  ∃ members before node after tokens, v = .object members ∧
    Json.member? members "types" = some (.array (before ++ node :: after)) ∧
      Json.member? members "tokens" = some (.object tokens) ∧
        (∃ ns, before.mapM Node.ofJson = .ok ns) ∧ Node.TripsOn node

theorem failsByKind_ofJson (v : Json) : FailsByKind (ofJson v) := by
  rw [ofJson.eq_def]
  split
  · split
    · exact (FailsByKind.mapM Node.failsByKind_ofJson _).bind fun ns ↦ failsByKind_ok _
    · exact failsByKind_error rfl
  · exact failsByKind_error rfl

/-- **Where the reader of a schema meets a value of the wrong kind.** -/
theorem ofJson_eq_wrongType_iff {v : Json} :
    ofJson v = .error (.unreported .wrongType) ↔ TripsOn v := by
  rw [ofJson.eq_def]
  split
  · next members =>
    split
    · next types tokens htypes htokens =>
      rw [bind_eq_error, mapM_eq_error]
      constructor
      · rintro (⟨before, node, after, rfl, hbefore, hnode⟩ | ⟨ns, -, h⟩)
        · exact ⟨members, before, node, after, tokens, rfl, htypes, htokens, hbefore,
            Node.ofJson_eq_wrongType_iff.mp hnode⟩
        · cases h
      · rintro ⟨members', before, node, after, tokens', heq, hmember, -, hbefore, hnode⟩
        cases heq
        rw [htypes] at hmember
        cases hmember
        exact .inl ⟨before, node, after, rfl, hbefore, Node.ofJson_eq_wrongType_iff.mpr hnode⟩
    · next hparts =>
      refine iff_of_false (fun h ↦ by cases h) ?_
      rintro ⟨members', before, node, after, tokens, heq, htypes, htokens, -⟩
      cases heq
      exact hparts _ _ htypes htokens
  · next hobject =>
    refine iff_of_false (fun h ↦ by cases h) ?_
    rintro ⟨members, before, node, after, tokens, rfl, -⟩
    exact hobject members rfl

/-- A text is refused as a bad schema text, or read as a schema that is written and read again as
itself. -/
def Validates (text : String) : Prop :=
  (∃ failure, read text = .error failure ∧ failure.category = .schema) ∨
    ∃ d printed e, read text = .ok d ∧ d.print = .ok printed ∧ read printed = .ok e ∧
      e.same d = true

/-- What the reader, and the writer after it, use without a look: a whole number that is too long, a
value of the wrong kind, and features of one node that have no order to each other. -/
inductive TripsOver (text : String) : Prop
  | number (h : Json.read text.toList = .error .numberTooLong)
  | kind {v : Json} (hread : Json.read text.toList = .ok v) (h : TripsOn v)
  | order {d : Definitions} (hread : read text = .ok d) {n : Node} (hn : n ∈ d.nodes)
      (h : ¬ n.features.Pairwise FeatureName.Comparable)

/-- A text that is read is validated iff the features of all nodes have an order. -/
theorem validates_iff_of_read {text : String} {d : Definitions} (h : read text = .ok d) :
    Validates text ↔ d.IsOrdered := by
  constructor
  · rintro (⟨failure, hfailure, -⟩ | ⟨d', printed, e, hread, hprint, -⟩)
    · rw [h] at hfailure
      cases hfailure
    · rw [h] at hread
      cases hread
      exact exists_print_iff.mp ⟨printed, hprint⟩
  · intro hordered
    have hd := isRead_of_read h
    exact .inr ⟨d, _, d.normal, h, hordered.print_eq, hd.normal.read_asJson, same_normal hd.tokens⟩

/-- A text that is not read is validated iff it is refused as a bad schema text. -/
theorem validates_iff_of_error {text : String} {failure : Failure}
    (h : read text = .error failure) : Validates text ↔ failure.category = .schema := by
  constructor
  · rintro (⟨failure', hfailure, hcategory⟩ | ⟨d, printed, e, hread, -⟩)
    · rw [h] at hfailure
      cases hfailure
      exact hcategory
    · rw [h] at hread
      cases hread
  · exact fun hcategory ↦ .inl ⟨failure, h, hcategory⟩

/-- **Which texts are validated.**  Every text is refused as a bad schema text or read as a schema
that is written and read again as itself, but for those in which the reader or the writer comes to a
value that is used without a look at its kind. -/
theorem validates_iff (text : String) : Validates text ↔ ¬ TripsOver text := by
  cases hjson : Json.read text.toList with
  | error e =>
    have hno {v : Json} (h : Json.read text.toList = .ok v) : False := by
      rw [hjson] at h
      cases h
    cases e with
    | flaw flaw offset =>
      have hread : read text = .error (.invalidJson (flawText text.toList flaw offset)) := by
        rw [read, hjson]
      refine iff_of_true ((validates_iff_of_error hread).mpr rfl) ?_
      rintro (h | ⟨h, -⟩ | ⟨h, -⟩)
      · rw [hjson] at h
        cases h
      · exact hno h
      · rw [hread] at h
        cases h
    | numberTooLong =>
      have hread : read text = .error (.unreported .badValue) := by rw [read, hjson]
      refine iff_of_false (fun h ↦ ?_) (not_not_intro (.number hjson))
      exact absurd ((validates_iff_of_error hread).mp h) (by decide)
  | ok v =>
    have hread : read text = ofJson v := by rw [read, hjson]
    have hnumber : Json.read text.toList ≠ .error .numberTooLong := by
      rw [hjson]
      exact fun h ↦ by cases h
    cases hv : ofJson v with
    | error e =>
      rw [validates_iff_of_error (hread.trans hv)]
      have hkind : e.category = .schema ↔ e ≠ .unreported .wrongType := by
        refine ⟨?_, fun hne ↦ (failsByKind_ofJson v e hv).resolve_right hne⟩
        rintro hcategory rfl
        exact absurd hcategory (by decide)
      rw [hkind, not_iff_not]
      constructor
      · rintro rfl
        exact .kind hjson (ofJson_eq_wrongType_iff.mp hv)
      · rintro (h | ⟨h, htrips⟩ | ⟨h, -⟩)
        · exact absurd h hnumber
        · rw [hjson] at h
          cases h
          rw [ofJson_eq_wrongType_iff.mpr htrips] at hv
          exact (Except.error.inj hv).symm
        · rw [hread, hv] at h
          cases h
    | ok d =>
      rw [validates_iff_of_read (hread.trans hv)]
      constructor
      · rintro hordered (h | ⟨h, htrips⟩ | ⟨h, hn, hfeatures⟩)
        · exact hnumber h
        · rw [hjson] at h
          cases h
          rw [ofJson_eq_wrongType_iff.mpr htrips] at hv
          cases hv
        · rw [hread, hv] at h
          cases h
          exact hfeatures (FeatureName.isSome_sort?_iff.mp (hordered _ hn))
      · intro hnot n hn
        by_contra hunordered
        exact hnot (.order (hread.trans hv) hn fun h ↦
          hunordered (FeatureName.isSome_sort?_iff.mpr h))

/-- The types of a variant that are a number are used without a look. -/
theorem not_validates_variantNumber : ¬ Validates
    ("\x7b\"version\":\"1\",\"types\":[\x7b\"ident\":\"A\",\"variants\":" ++
      "\x7b\"B\":5\x7d\x7d],\"tokens\":\x7b\x7d\x7d") := by
  have hread : read
      ("\x7b\"version\":\"1\",\"types\":[\x7b\"ident\":\"A\",\"variants\":" ++
        "\x7b\"B\":5\x7d\x7d],\"tokens\":\x7b\x7d\x7d") =
      .error (.unreported .wrongType) := by
    decide +kernel
  rw [validates_iff_of_error hread]
  decide

/-- Two halves of a surrogate pair, each alone, are two names, so the number is not passed over. -/
example : read
    ("\x7b\"version\":\"1\",\"types\":[\x7b\"ident\":\"A\",\"variants\":" ++
      "\x7b\"\\ud800\":5,\"\\ud801\":[]\x7d\x7d],\"tokens\":\x7b\x7d\x7d") =
    .error (.unreported .wrongType) := by
  decide +kernel

end Definitions
end NodeSchema
