import NodeSchema.Proofs.Schema.Closed
import NodeSchema.Proofs.Schema.Members

/-!
# Opaque members do not show

The fields of a struct that keeps one of them to itself, and the hidden variants of an enum, are
opaque: a schema does not tell them.  Two lookups that differ in opaque members only
(`Lookup.SameShown`) are assembled by the same run, whatever the types of these members are
(`assemble_eq_of_sameShown`); types that cannot be looked up are no exception.

All that the rest of an assembly sees of a declaration is the node that it makes
(`nodes_eq_mapM`), so the difference is settled for one declaration (`node_eq_of_sameShown`).
-/

set_option autoImplicit false

namespace NodeSchema

open Rust

/-! ## Sorting does not look at values -/

namespace Spelling

variable {α β : Type}

theorem insertSorted_map (f : α → β) (e : String × α) (es : List (String × α)) :
    insertSorted (Prod.map id f e) (es.map (Prod.map id f)) =
      (insertSorted e es).map (Prod.map id f) := by
  induction es with
  | nil => rfl
  | cons e' es ih =>
    rw [List.map_cons, insertSorted, insertSorted, Prod.map_fst, Prod.map_fst, id, id]
    split
    · rfl
    · rw [ih, List.map_cons]

theorem sortEntries_map (f : α → β) (es : List (String × α)) :
    sortEntries (es.map (Prod.map id f)) = (sortEntries es).map (Prod.map id f) := by
  have hfold (sorted : List (String × α)) :
      (es.map (Prod.map id f)).foldl (fun sorted e ↦ insertSorted e sorted)
          (sorted.map (Prod.map id f)) =
        (es.foldl (fun sorted e ↦ insertSorted e sorted) sorted).map (Prod.map id f) := by
    induction es generalizing sorted with
    | nil => rfl
    | cons e es ih => rw [List.map_cons, List.foldl_cons, insertSorted_map, ih, List.foldl_cons]
  exact hfold []

end Spelling

/-! ## Differences that a schema does not show -/

/-- The members of two declarations differ in what is opaque only: in the fields of structs that
have a field which is not public, and in enums at places where both have a hidden variant. -/
inductive Members.SameShown : Members → Members → Prop
  | refl (m : Members) : SameShown m m
  | struct {fs gs : List Field} (hfs : fs.all Field.isPublic = false)
      (hgs : gs.all Field.isPublic = false) : SameShown (.struct fs) (.struct gs)
  | enum {vs ws : List VariantDeclaration} {nonExhaustive : Bool}
      (h : List.Forall₂ (fun v w ↦ v = w ∨ (v.isHidden = true ∧ w.isHidden = true)) vs ws) :
      SameShown (.enum vs nonExhaustive) (.enum ws nonExhaustive)

/-- Two declarations differ in opaque members only. -/
structure Declaration.SameShown (d e : Declaration) : Prop where
  ident : d.ident = e.ident
  features : d.features = e.features
  members : d.members.SameShown e.members

/-- Two lookups differ in opaque members only, of any of their declarations. -/
structure Lookup.SameShown (l l' : Lookup) : Prop where
  declarations : List.Forall₂ (fun e e' ↦ e.1 = e'.1 ∧ e.2.SameShown e'.2)
    l.declarations.entries l'.declarations.entries
  aliases : l.aliases = l'.aliases

namespace Members

variable {vs ws : List VariantDeclaration}

theorem visible_eq_of_sameShown
    (h : List.Forall₂ (fun v w ↦ v = w ∨ (v.isHidden = true ∧ w.isHidden = true)) vs ws) :
    visible vs = visible ws := by
  induction h with
  | nil => rfl
  | @cons v w vs ws hvw _ ih =>
    rw [visible] at ih
    rcases hvw with rfl | ⟨hv, hw⟩
    · rw [visible, visible, List.filter_cons, List.filter_cons, ih, visible]
    · rw [visible, visible, List.filter_cons, List.filter_cons, hv, hw, ih, visible]
      rfl

theorem hides_eq_of_sameShown
    (h : List.Forall₂ (fun v w ↦ v = w ∨ (v.isHidden = true ∧ w.isHidden = true)) vs ws) :
    vs.any VariantDeclaration.isHidden = ws.any VariantDeclaration.isHidden := by
  induction h with
  | nil => rfl
  | @cons v w vs ws hvw _ ih =>
    have hhead : v.isHidden = w.isHidden := by
      rcases hvw with rfl | ⟨hv, hw⟩
      · rfl
      · rw [hv, hw]
    rw [List.any_cons, List.any_cons, hhead, ih]

end Members

/-! ## The node of a declaration -/

namespace Scope

variable {s : Scope} {d e : Declaration}

/-- **Opaque members make no difference to the node of a declaration**, or to the failure in its
place. -/
theorem node_eq_of_sameShown (h : d.SameShown e) : s.node d = s.node e := by
  obtain ⟨ident, members, features⟩ := d
  obtain ⟨ident', members', features'⟩ := e
  obtain ⟨rfl, rfl, hmembers⟩ := h
  cases hmembers with
  | refl => rfl
  | struct hfs hgs => rw [node_struct, node_struct, hfs, hgs]; rfl
  | enum h =>
    rw [node_enum, node_enum, Members.isExhaustive, Members.isExhaustive,
      Members.hides_eq_of_sameShown h]
    exact congrArg (fun visible ↦ (s.variants visible).map _) (Members.visible_eq_of_sameShown h)

end Scope

/-- What is recorded of a declaration with opaque members: a struct is recorded without members and
as exhaustive, and an enum with exactly its visible variants, in order and with the types that they
mean, and as not exhaustive. -/
structure Node.Conceals (s : Scope) (d : Declaration) (n : Node) : Prop where
  ident : n.ident = d.ident
  features : n.features = d.features.names.map .name
  struct : ∀ fs, d.members = .struct fs → fs.all Field.isPublic = false →
    n.data = .opaque_ ∧ n.exhaustive = true
  enum : ∀ vs nonExhaustive, d.members = .enum vs nonExhaustive →
    vs.any VariantDeclaration.isHidden = true →
      n.exhaustive = false ∧ ∃ ts, n.data = .variants ts ∧
        List.Forall₂ (fun v t ↦ t.1 = v.name ∧ List.Forall₂ s.meaning.Means v.members t.2)
          (Members.visible vs) ts

theorem Scope.conceals_of_node {s : Scope} {d : Declaration} {n : Node} (h : s.node d = .ok n) :
    n.Conceals s d := by
  obtain ⟨hident, hfeatures, hlists, hexhaustive⟩ := node_eq_ok_iff.mp h
  refine ⟨hident, hfeatures, fun fs hmembers hprivate ↦ ?_, fun vs _ hmembers hhides ↦ ?_⟩
  · rw [hmembers] at hlists hexhaustive
    refine ⟨?_, hexhaustive⟩
    generalize n.data = data at hlists
    cases hlists with
    | fields hpublic => rw [hprivate] at hpublic; cases hpublic
    | opaque_ => rfl
  · rw [hmembers] at hlists hexhaustive
    rw [Members.isExhaustive, hhides, Bool.or_true] at hexhaustive
    refine ⟨hexhaustive, ?_⟩
    generalize n.data = data at hlists
    cases hlists with
    | variants hts => exact ⟨_, rfl, hts⟩

/-! ## Assembling -/

namespace Lookup

variable {l l' : Lookup} {tokens : Table String} {leaves : LeafTables}

/-- The nodes of a crate in terms of the nodes that its declarations make. -/
theorem nodes_eq_mapM : l.nodes tokens leaves =
    (Spelling.sortEntries (l.declarations.entries.map
      (Prod.map id (l.scope tokens leaves).node))).mapM Prod.snd := by
  rw [nodes, Spelling.sortEntries_map, List.mapM_map]
  rfl

theorem SameShown.names_eq (h : l.SameShown l') : l.declarations.names = l'.declarations.names := by
  have hkeys := h.declarations.imp fun _ _ he ↦ he.1
  rw [Table.names, Table.names]
  exact List.forall₂_eq_eq_eq ▸ List.forall₂_map_left_iff.mpr (List.forall₂_map_right_iff.mpr hkeys)

theorem nodes_eq_of_sameShown (h : l.SameShown l') :
    l.nodes tokens leaves = l'.nodes tokens leaves := by
  have hscope : l.scope tokens leaves = l'.scope tokens leaves := by
    rw [scope, scope, h.names_eq, h.aliases]
  have hnodes : l.declarations.entries.map (Prod.map id (l.scope tokens leaves).node) =
      l'.declarations.entries.map (Prod.map id (l.scope tokens leaves).node) := by
    refine List.forall₂_eq_eq_eq ▸ List.forall₂_map_left_iff.mpr
      (List.forall₂_map_right_iff.mpr (h.declarations.imp fun e e' he ↦ ?_))
    exact Prod.ext he.1 (Scope.node_eq_of_sameShown he.2)
  rw [nodes_eq_mapM, nodes_eq_mapM, hnodes, hscope]

/-- Lookups that differ in opaque members only are assembled by the same run. -/
theorem assemble_eq_of_sameShown (h : l.SameShown l') (version : String) :
    l.assemble tokens leaves version = l'.assemble tokens leaves version := by
  rw [assemble, assemble, nodes_eq_of_sameShown h]

/-- A schema that was assembled has a text: features that are names have an order. -/
theorem exists_print_of_assemble {version : String} {d : Definitions}
    (h : (l.assemble tokens leaves version).result = .ok d) : ∃ text, d.print = .ok text := by
  rw [result_assemble, definitions_eq_ok] at h
  have hordered : d.IsOrdered := by
    intro n hn
    obtain ⟨e, -, hnode⟩ := exists_of_mem_right (forall₂_of_nodes h.2.1) hn
    rw [Node.IsOrdered, (Scope.node_eq_ok_iff.mp hnode).2.1, FeatureName.sort?_names]
    rfl
  exact ⟨_, hordered.print_eq⟩

/-- **Opaque members cannot influence a schema.**  Lookups that differ in them only are assembled to
the same schema with the same text, or both are not; the run fails, if it does, at the same place.
What is recorded of each declaration conceals its opaque members and shows the others. -/
theorem assemble_conceals (l l' : Lookup) (tokens : Table String) (leaves : LeafTables)
    (version : String) (h : l.SameShown l') :
    ((∃ d, (l.assemble tokens leaves version).result = .ok d) ↔
      ∃ d, (l'.assemble tokens leaves version).result = .ok d) ∧
    (∀ d d', (l.assemble tokens leaves version).result = .ok d →
      (l'.assemble tokens leaves version).result = .ok d' →
        d = d' ∧ ∃ text, d.print = .ok text ∧ d'.print = .ok text) ∧
    l.assemble tokens leaves version = l'.assemble tokens leaves version ∧
    ∀ d, (l.assemble tokens leaves version).result = .ok d →
      List.Forall₂ (fun e n ↦ n.Conceals (l.scope tokens leaves) e.2)
        (Spelling.sortEntries l.declarations.entries) d.nodes := by
  have hrun : l.assemble tokens leaves version = l'.assemble tokens leaves version :=
    assemble_eq_of_sameShown h version
  refine ⟨by rw [hrun], fun d d' hd hd' ↦ ?_, hrun, fun d hd ↦ ?_⟩
  · obtain rfl : d = d' := Except.ok.inj (hd.symm.trans (hrun ▸ hd'))
    obtain ⟨text, htext⟩ := exists_print_of_assemble hd
    exact ⟨rfl, text, htext, htext⟩
  · rw [result_assemble, definitions_eq_ok] at hd
    exact (forall₂_of_nodes hd.2.1).imp fun e n ↦ Scope.conceals_of_node

/-- A struct and an enum around opaque members. -/
def around (field : Field) (variant : VariantDeclaration) : Lookup where
  declarations := ⟨[
    ("Member", ⟨"Member", .enum
      [⟨"Named", [.path ["Ident"] []], false⟩, variant, ⟨"Unit", [], false⟩] false, .always⟩),
    ("Lit", ⟨"Lit", .struct [⟨"span", .path ["Span"] [], true⟩, field], .always⟩)]⟩
  aliases := .empty

/-- An unknown type, an unknown token, and a type of a form that has no place in a schema. -/
theorem assemble_conceals_unknown :
    (around ⟨"repr", .path ["Unknown"] [], false⟩ ⟨"Index", [.other "fn()"], true⟩).SameShown
      (around ⟨"text", .macroCall "Token" "<>", false⟩ ⟨"Other", [], true⟩) ∧
    ∃ d, ((around ⟨"text", .macroCall "Token" "<>", false⟩ ⟨"Other", [], true⟩).assemble .empty
        .default "1.0").result = .ok d ∧
      d.nodes = [⟨"Lit", [], .opaque_, true⟩,
        ⟨"Member", [], .variants [("Named", [.external "Ident"]), ("Unit", [])], false⟩] := by
  have hsame : (around ⟨"repr", .path ["Unknown"] [], false⟩
      ⟨"Index", [.other "fn()"], true⟩).SameShown
      (around ⟨"text", .macroCall "Token" "<>", false⟩ ⟨"Other", [], true⟩) := by
    refine ⟨.cons ⟨rfl, rfl, rfl, .enum ?_⟩ (.cons ⟨rfl, rfl, rfl, .struct rfl rfl⟩ .nil), rfl⟩
    exact .cons (.inl rfl) (.cons (.inr ⟨rfl, rfl⟩) (.cons (.inl rfl) .nil))
  have hassembled : ((around ⟨"repr", .path ["Unknown"] [], false⟩
      ⟨"Index", [.other "fn()"], true⟩).assemble .empty .default "1.0").result =
      .ok ⟨"1.0", [⟨"Lit", [], .opaque_, true⟩,
        ⟨"Member", [], .variants [("Named", [.external "Ident"]), ("Unit", [])], false⟩],
        .empty⟩ := by rfl
  obtain ⟨hiff, hequal, -, -⟩ := assemble_conceals _ _ .empty .default "1.0" hsame
  obtain ⟨d, hd⟩ := hiff.mp ⟨_, hassembled⟩
  obtain ⟨rfl, -⟩ := hequal _ d hassembled hd
  exact ⟨hsame, _, hd, rfl⟩

end Lookup
end NodeSchema
