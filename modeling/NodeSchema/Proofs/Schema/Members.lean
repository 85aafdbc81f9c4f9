import NodeSchema.Declaration.Recognize
import NodeSchema.Proofs.Order
import NodeSchema.Proofs.Schema.RoundTrip
import NodeSchema.Proofs.Schema.Lookup
import NodeSchema.Rust.Grammar.File

/-!
# Members on the way to the text

A declaration and a node list their members in order, and may list a name twice: two fields or
variants of one name are alternatives for different configurations.  The JSON of a node has its
members in an object, and keeps of each name the first place and the last value.

So the JSON lists every member that a schema shows, in order and with its own types, exactly if no
name is shown twice (`members_kept_iff`).  A macro call may well declare a name twice, and then a
member is lost (`member_lost`).
-/

set_option autoImplicit false

namespace NodeSchema

open Rust

/-! ## What a schema shows of a declaration -/

namespace Members

/-- The variants that are not hidden. -/
def visible (vs : List VariantDeclaration) : List VariantDeclaration :=
  vs.filter fun v ↦ !v.isHidden

/-- The members are shown at all: those of a struct are not if one of its fields is private. -/
def IsShown : Members → Prop
  | .struct fs => ∀ f ∈ fs, f.isPublic = true
  | .enum _ _ => True

/-- The names of the members that a schema shows, in order. -/
def shownNames : Members → List String
  | .struct fs => fs.map Field.name
  | .enum vs _ => (visible vs).map VariantDeclaration.name

/-- The types of the members that a schema shows. -/
def shownTypes : Members → List TypeExpr
  | .struct fs => fs.map Field.type
  | .enum vs _ => (visible vs).flatMap VariantDeclaration.members

/-- Where the JSON of a node has its members. -/
def key : Members → String
  | .struct _ => "fields"
  | .enum _ _ => "variants"

/-- One entry for each member that a schema shows, in order: under the name of the member stand its
own types. -/
inductive Writes (s : Scope) : Members → List (String × Json) → Prop
  | struct {fs : List Field} {es : List (String × Json)}
      (h : List.Forall₂ (fun f e ↦ e.1 = f.name ∧
        ∃ t, s.introspect f.type = .ok t ∧ e.2 = t.toJson) fs es) : Writes s (.struct fs) es
  | enum {vs : List VariantDeclaration} {nonExhaustive : Bool} {es : List (String × Json)}
      (h : List.Forall₂ (fun v e ↦ e.1 = v.name ∧
        ∃ ts, List.Forall₂ (fun m t ↦ s.introspect m = .ok t) v.members ts ∧
          e.2 = .array (ts.map SchemaType.toJson)) (visible vs) es) :
      Writes s (.enum vs nonExhaustive) es

variable {s : Scope}

theorem Writes.names {m : Members} {es : List (String × Json)} (h : m.Writes s es) :
    es.map Prod.fst = m.shownNames := by
  have hnames {α : Type} {name : α → String} {as : List α} {es : List (String × Json)}
      (h : List.Forall₂ (fun a e ↦ e.1 = name a) as es) : es.map Prod.fst = as.map name := by
    induction h with
    | nil => rfl
    | cons ha _ ih => rw [List.map_cons, List.map_cons, ha, ih]
  cases h with
  | struct h => exact hnames (h.imp fun _ _ hf ↦ hf.1)
  | enum h => exact hnames (h.imp fun _ _ hv ↦ hv.1)

end Members

/-! ## The JSON of a node -/

namespace Node

/-- Names have an order, so the features of a declaration can always be written. -/
theorem exists_featuresJson (f : Features) :
    ∃ j, featuresJson? (f.names.map .name) = some j := by
  rw [featuresJson?]
  split
  · exact ⟨_, rfl⟩
  · rw [FeatureName.sort?_names]
    exact ⟨_, rfl⟩

/-- The mark of a node that is not exhaustive. -/
def exhaustiveJson (isExhaustive : Bool) : List (String × Json) :=
  if isExhaustive then [] else [("exhaustive", .bool false)]

theorem toJson?_of_features {n : Node} {features : Json}
    (h : featuresJson? n.features = some features) :
    n.toJson? = some (.object ([("ident", .string n.ident), ("features", features)]
      ++ dataJson n.data ++ exhaustiveJson n.exhaustive)) := by
  rw [toJson?, h]
  rfl

end Node

/-! ## Nothing is lost -/

variable {s : Scope}

/-- The node that a declaration makes, and what its members are written as before names that stand
twice are merged. -/
theorem exists_node_of_shown {d : Declaration} (hshown : d.members.IsShown)
    (htypes : ∀ e ∈ d.members.shownTypes, ∃ t, s.introspect e = .ok t) :
    ∃ n written, s.node d = .ok n ∧ n.ident = d.ident ∧
      n.features = d.features.names.map .name ∧ n.exhaustive = d.members.isExhaustive ∧
      d.members.Writes s written ∧
      Node.dataJson n.data = [(d.members.key, .object (Table.ofPairs written).entries)] := by
  obtain ⟨ident, members, features⟩ := d
  cases members with
  | struct fs =>
    have hfields (f : Field) (hf : f ∈ fs) :
        ∃ t, ((s.introspect f.type).map fun t ↦ (f.name, t)) = .ok t := by
      obtain ⟨t, ht⟩ := htypes f.type (List.mem_map_of_mem hf)
      exact ⟨_, map_eq_ok.mpr ⟨t, ht, rfl⟩⟩
    obtain ⟨ts, hnode⟩ : ∃ ts, s.fields fs = .ok ts := exists_mapM_eq_ok hfields
    refine ⟨⟨ident, features.names.map .name, .fields ts, true⟩,
      ts.map fun t ↦ (t.1, t.2.toJson), ?_, rfl, rfl, rfl, .struct ?_, rfl⟩
    · rw [Scope.node_struct, if_pos (List.all_eq_true.mpr hshown), hnode]
      rfl
    · refine List.forall₂_map_right_iff.mpr ((mapM_eq_ok.mp hnode).imp fun f t hft ↦ ?_)
      obtain ⟨u, hu, rfl⟩ := map_eq_ok.mp hft
      exact ⟨rfl, u, hu, rfl⟩
  | enum vs nonExhaustive =>
    have hvariants (v : VariantDeclaration) (hv : v ∈ Members.visible vs) :
        ∃ t, ((v.members.mapM s.introspect).map fun ts ↦ (v.name, ts)) = .ok t := by
      obtain ⟨us, hus⟩ := exists_mapM_eq_ok fun m hm ↦
        htypes m (List.mem_flatMap.mpr ⟨v, hv, hm⟩)
      exact ⟨_, map_eq_ok.mpr ⟨us, hus, rfl⟩⟩
    obtain ⟨ts, hnode⟩ : ∃ ts, s.variants (Members.visible vs) = .ok ts :=
      exists_mapM_eq_ok hvariants
    refine ⟨⟨ident, features.names.map .name, .variants ts,
        Members.isExhaustive (.enum vs nonExhaustive)⟩,
      ts.map fun t ↦ (t.1, .array (t.2.map SchemaType.toJson)), ?_, rfl, rfl, rfl, .enum ?_, rfl⟩
    · rw [Scope.node_enum, ← Members.visible, hnode]
      rfl
    · refine List.forall₂_map_right_iff.mpr ((mapM_eq_ok.mp hnode).imp fun v t hvt ↦ ?_)
      obtain ⟨us, hus, rfl⟩ := map_eq_ok.mp hvt
      exact ⟨rfl, us, mapM_eq_ok.mp hus, rfl⟩

/-- **A declaration whose shown members have types makes a node that can be written, and the JSON
lists these members, in order and with their own types, exactly if no name is shown twice.** -/
theorem members_kept_iff {d : Declaration} (hshown : d.members.IsShown)
    (htypes : ∀ e ∈ d.members.shownTypes, ∃ t, s.introspect e = .ok t) :
    ∃ n written features entries, s.node d = .ok n ∧ d.members.Writes s written ∧
      n.toJson? = some (.object ([("ident", .string d.ident), ("features", features)]
        ++ [(d.members.key, .object entries)] ++ Node.exhaustiveJson d.members.isExhaustive)) ∧
      (entries = written ↔ d.members.shownNames.Nodup) := by
  obtain ⟨n, written, hnode, hident, hfeatures, hexhaustive, hwrites, hdata⟩ :=
    exists_node_of_shown hshown htypes
  obtain ⟨features, hjson⟩ := Node.exists_featuresJson d.features
  refine ⟨n, written, features, (Table.ofPairs written).entries, hnode, hwrites, ?_, ?_⟩
  · rw [Node.toJson?_of_features (hfeatures ▸ hjson), hident, hdata, hexhaustive]
  · rw [← hwrites.names]
    refine ⟨fun h ↦ ?_, Table.entries_ofPairs⟩
    have hmap : (Table.ofPairs written).IsMap := Table.isMap_ofPairs written
    rwa [Table.IsMap, Table.names, h] at hmap

/-! ## A member that is lost -/

/-- A call that declares one variant twice, for one configuration each. -/
def alternatives : Source := .ofString "src/expr.rs"
  ("ast_enum! \x7b pub enum E \x7b #[cfg(feature = \"full\")] A(u32), " ++
    "#[cfg(feature = \"derive\")] A(bool), \x7d \x7d")

/-- What `alternatives` declares. -/
def alternativesDeclaration : Declaration :=
  ⟨"E", .enum [⟨"A", [.path ["u32"] []], false⟩, ⟨"A", [.path ["bool"] []], false⟩] false, .always⟩

/-- A scope that knows nothing but leaves. -/
def leafScope : Scope := ⟨[], .empty, .empty, .default⟩

theorem members_kept_iff_enum :
    (∀ e ∈ Members.shownTypes (.enum [⟨"A", [.path ["u32"] []], false⟩, ⟨"B", [], false⟩] false),
      ∃ t, leafScope.introspect e = .ok t) ∧
    ∃ n written features entries,
      leafScope.node ⟨"E", .enum [⟨"A", [.path ["u32"] []], false⟩, ⟨"B", [], false⟩] false,
        .always⟩ = .ok n ∧
      n.toJson? = some (.object [("ident", .string "E"), ("features", features),
        ("variants", .object entries)]) ∧
      entries = written ∧ written.map Prod.fst = ["A", "B"] := by
  have htypes : ∀ e ∈ Members.shownTypes
      (.enum [⟨"A", [.path ["u32"] []], false⟩, ⟨"B", [], false⟩] false),
      ∃ t, leafScope.introspect e = .ok t := List.forall_mem_singleton.mpr ⟨.std "u32", rfl⟩
  obtain ⟨n, written, features, entries, hnode, hwrites, hjson, hkept⟩ :=
    members_kept_iff (s := leafScope) (d := ⟨"E", .enum [⟨"A", [.path ["u32"] []], false⟩,
      ⟨"B", [], false⟩] false, .always⟩) trivial htypes
  exact ⟨htypes, n, written, features, entries, hnode, hjson, hkept.mpr (by decide), hwrites.names⟩

/-- **A variant that is declared twice has one entry in the JSON**, with the types of the last. -/
theorem member_lost :
    (alternatives.items >>= fun is ↦ is.mapM fun i ↦
      match i.item.body with
      | .macroCall call => Declaration.recognize alternatives call
      | _ => .ok none) = .ok [some alternativesDeclaration] ∧
    alternativesDeclaration.members.shownNames = ["A", "A"] ∧
    ∃ n features, leafScope.node alternativesDeclaration = .ok n ∧
      n.toJson? = some (.object [("ident", .string "E"), ("features", features),
        ("variants", .object [("A", .array [.object [("std", .string "bool")]])])]) :=
  ⟨by decide +kernel, rfl, _, _, rfl, rfl⟩

end NodeSchema
