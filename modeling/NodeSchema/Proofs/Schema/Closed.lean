import NodeSchema.Proofs.Alias
import NodeSchema.Proofs.Schema.Lookup
import NodeSchema.Proofs.Spelling.Inverse
import NodeSchema.Schema.Assemble

/-!
# Schemas without dangling references

Types refer to nodes, leaves and tokens by name.  A schema is closed if everything that its types
refer to, at any depth, is there (`Definitions.IsClosed`).  Nothing checks this when a schema is
assembled; it holds because of how types are looked up:

* a name is a leaf, or leads to a declaration through aliases (`Scope.named_cases`), and every
  declaration becomes a node;
* a token is found by its spelling in the table that is then turned around, which loses no entry.

`Meaning.Means.mono` carries both from the scope, in which types are looked up, to the schema that
comes out.  So the types of a node are what the written types mean in the schema itself, and a
meaning in a schema refers to nothing outside of it (`knows_of_means`).
-/

set_option autoImplicit false

namespace NodeSchema

open Rust

/-! ## References -/

namespace SchemaType

mutual
/-- A type and the types in it, at any depth. -/
def parts : SchemaType → List SchemaType
  | .punctuated element separator => .punctuated element separator :: parts element
  | .option inner => .option inner :: parts inner
  | .box inner => .box inner :: parts inner
  | .vec inner => .vec inner :: parts inner
  | .tuple elements => .tuple elements :: partsAll elements
  | t => [t]
/-- Types and the types in them. -/
def partsAll : List SchemaType → List SchemaType
  | [] => []
  | t :: ts => parts t ++ partsAll ts
end

theorem mem_partsAll {u : SchemaType} {ts : List SchemaType} :
    u ∈ partsAll ts ↔ ∃ t ∈ ts, u ∈ t.parts := by
  induction ts with
  | nil => simp [partsAll]
  | cons t ts ih => simp [partsAll, ih]

end SchemaType

/-- The types of the members of a node. -/
def NodeData.types : NodeData → List SchemaType
  | .fields fs => fs.map Prod.snd
  | .variants vs => vs.flatMap Prod.snd
  | .opaque_ => []

namespace Definitions

/-- The names of the nodes of a schema, in order. -/
def idents (d : Definitions) : List String := d.nodes.map Node.ident

/-- What a type itself refers to is there. -/
def Knows (d : Definitions) (leaves : LeafTables) : SchemaType → Prop
  | .node ident => ident ∈ d.idents
  | .std name => name ∈ leaves.std
  | .external name => name ∈ leaves.external
  | .group name => name ∈ leaves.groups
  | .token symbol | .punctuated _ symbol => symbol ∈ d.tokens.names
  | .option _ | .box _ | .vec _ | .tuple _ => True

/-- Everything that the types of a schema refer to is there. -/
def IsClosed (d : Definitions) (leaves : LeafTables) : Prop :=
  ∀ n ∈ d.nodes, ∀ t ∈ n.data.types, ∀ u ∈ t.parts, d.Knows leaves u

/-- A name stands for the leaf of that name, or for a node. -/
inductive Names (d : Definitions) (leaves : LeafTables) (name : String) : SchemaType → Prop
  | group (h : name ∈ leaves.groups) : Names d leaves name (.group name)
  | external (h : name ∈ leaves.external) : Names d leaves name (.external name)
  | std (h : name ∈ leaves.std) : Names d leaves name (.std name)
  | node {ident : String} (h : ident ∈ d.idents) : Names d leaves name (.node ident)

/-- What names and tokens stand for in a schema: a token has the spelling that it is written
with. -/
def meaning (d : Definitions) (leaves : LeafTables) : Meaning where
  name := d.Names leaves
  token spelling symbol := d.tokens.find? symbol = some spelling

variable {d : Definitions} {leaves : LeafTables}

/-- A separator is a token that is there. -/
theorem mem_names_of_means {e : TypeExpr} {symbol : String}
    (h : (d.meaning leaves).Means e (.token symbol)) : symbol ∈ d.tokens.names := by
  generalize ht : SchemaType.token symbol = t at h
  cases h with
  | wrapper w => cases w <;> cases ht
  | punctuated => cases ht
  | name _ _ h =>
    subst ht
    cases h
  | tuple => cases ht
  | token h =>
    cases ht
    exact Table.mem_names_iff.mpr ⟨_, h⟩

/-- **A meaning in a schema refers to nothing outside of it**, at any depth. -/
theorem knows_of_means {e : TypeExpr} {t : SchemaType} (h : (d.meaning leaves).Means e t) :
    ∀ u ∈ t.parts, d.Knows leaves u := by
  induction h with
  | @wrapper _ _ _ t w _ _ _ ih =>
    have hparts : (w.apply t).parts = w.apply t :: t.parts := by cases w <;> rfl
    have hself : d.Knows leaves (w.apply t) := by cases w <;> trivial
    rw [hparts]
    exact List.forall_mem_cons.mpr ⟨hself, ih⟩
  | punctuated _ _ _ _ hseparator ih _ =>
    exact List.forall_mem_cons.mpr ⟨mem_names_of_means hseparator, ih⟩
  | name _ _ h =>
    cases h with
    | group h | external h | std h | node h => exact List.forall_mem_singleton.mpr h
  | tuple hlength _ ih =>
    refine List.forall_mem_cons.mpr ⟨trivial, fun u hu ↦ ?_⟩
    obtain ⟨t, ht, hu⟩ := SchemaType.mem_partsAll.mp hu
    obtain ⟨i, hi, rfl⟩ := List.getElem_of_mem ht
    exact ih (List.getElem_zip ▸ List.getElem_mem (by simpa [hlength] using hi)) u hu
  | token h => exact List.forall_mem_singleton.mpr (Table.mem_names_iff.mpr ⟨_, h⟩)

end Definitions

/-! ## Members -/

namespace NodeData

variable {R S : TypeExpr → SchemaType → Prop} {data : NodeData} {members : Members}

theorem Lists.mono (hRS : ∀ e t, R e t → S e t) (h : data.Lists R members) :
    data.Lists S members := by
  cases h with
  | fields hpublic h => exact .fields hpublic (h.imp fun f t ⟨hname, ht⟩ ↦ ⟨hname, hRS _ _ ht⟩)
  | opaque_ hprivate => exact .opaque_ hprivate
  | variants h => exact .variants (h.imp fun v t ⟨hname, ht⟩ ↦ ⟨hname, ht.imp hRS⟩)

/-- Every type of a node comes from a written type. -/
theorem Lists.exists_of_mem_types (h : data.Lists R members) {t : SchemaType}
    (ht : t ∈ data.types) : ∃ e, R e t := by
  cases h with
  | fields _ h =>
    obtain ⟨⟨name, t⟩, hmem, rfl⟩ := List.mem_map.mp ht
    obtain ⟨f, -, -, hR⟩ := exists_of_mem_right h hmem
    exact ⟨f.type, hR⟩
  | opaque_ _ => cases ht
  | variants h =>
    obtain ⟨⟨name, us⟩, hmem, ht⟩ := List.mem_flatMap.mp ht
    obtain ⟨v, -, -, hR⟩ := exists_of_mem_right h hmem
    obtain ⟨e, -, he⟩ := exists_of_mem_right hR ht
    exact ⟨e, he⟩

end NodeData

/-- A schema whose nodes list what written types mean in it is closed. -/
theorem Definitions.isClosed_of_lists {d : Definitions} {leaves : LeafTables}
    (h : ∀ n ∈ d.nodes, ∃ members, n.data.Lists (d.meaning leaves).Means members) :
    d.IsClosed leaves := by
  intro n hn t ht
  obtain ⟨members, hlists⟩ := h n hn
  obtain ⟨e, he⟩ := hlists.exists_of_mem_types ht
  exact knows_of_means he

/-! ## Assembling -/

/-- A name that means something is a leaf, or leads to a node. -/
theorem Scope.named_cases {s : Scope} {name : String} {t : SchemaType}
    (h : s.named name = .ok t) :
    (t = .group name ∧ name ∈ s.leaves.groups) ∨
      (t = .external name ∧ name ∈ s.leaves.external) ∨
      (t = .std name ∧ name ∈ s.leaves.std) ∨
      ∃ ident, Alias.resolve s.aliases s.nodes.contains name = .ok ident ∧ t = .node ident := by
  rw [named] at h
  split at h
  · next hgroup => exact .inl ⟨(Except.ok.inj h).symm, List.contains_iff_mem.mp hgroup⟩
  · split at h
    · next hexternal =>
      exact .inr (.inl ⟨(Except.ok.inj h).symm, List.contains_iff_mem.mp hexternal⟩)
    · split at h
      · next hstd =>
        exact .inr (.inr (.inl ⟨(Except.ok.inj h).symm, List.contains_iff_mem.mp hstd⟩))
      · obtain ⟨ident, hident, rfl⟩ := map_eq_ok.mp h
        exact .inr (.inr (.inr ⟨ident, hident, rfl⟩))

namespace Lookup

/-- Every declaration stands under its own name, and no name stands twice. -/
structure IsKeyed (l : Lookup) : Prop where
  isMap : l.declarations.IsMap
  ident : ∀ e ∈ l.declarations.entries, e.2.ident = e.1

variable {l : Lookup} {tokens : Table String} {leaves : LeafTables} {version : String}
  {d : Definitions}

/-- What an assembly tells does not change the schema. -/
theorem result_assemble :
    (l.assemble tokens leaves version).result = l.definitions tokens leaves version := by
  simp only [assemble, definitions, Logged.result_bind, Logged.result_ofExcept,
    Logged.result_tell, Logged.result_pure]
  rfl

theorem definitions_eq_ok :
    l.definitions tokens leaves version = .ok d ↔ d.version = version ∧
      l.nodes tokens leaves = .ok d.nodes ∧ Spelling.invert tokens = .ok d.tokens := by
  rw [definitions, bind_eq_ok]
  constructor
  · rintro ⟨nodes, hnodes, h⟩
    obtain ⟨spellings, hspellings, h⟩ := bind_eq_ok.mp h
    cases h
    exact ⟨rfl, hnodes, hspellings⟩
  · rintro ⟨rfl, hnodes, hspellings⟩
    exact ⟨d.nodes, hnodes, bind_eq_ok.mpr ⟨d.tokens, hspellings, rfl⟩⟩

/-- Each declaration makes one node, in the order of their names. -/
theorem forall₂_of_nodes {ns : List Node} (h : l.nodes tokens leaves = .ok ns) :
    List.Forall₂ (fun e n ↦ (l.scope tokens leaves).node e.2 = .ok n)
      (Spelling.sortEntries l.declarations.entries) ns :=
  mapM_eq_ok.mp h

/-- The nodes have the names of the declarations, in order. -/
theorem idents_of_nodes (hl : l.IsKeyed) {ns : List Node}
    (h : l.nodes tokens leaves = .ok ns) :
    ns.map Node.ident = (Spelling.sortEntries l.declarations.entries).map Prod.fst := by
  have hident (e : String × Declaration) (he : e ∈ Spelling.sortEntries l.declarations.entries) :
      e.2.ident = e.1 :=
    hl.ident e ((Spelling.perm_sortEntries _).subset he)
  have hnodes := forall₂_of_nodes h
  clear h
  generalize Spelling.sortEntries l.declarations.entries = es at hident hnodes
  induction hnodes with
  | nil => rfl
  | @cons e n es ns hn _ ih =>
    rw [List.forall_mem_cons] at hident
    rw [List.map_cons, List.map_cons, ih hident.2, (Scope.node_eq_ok_iff.mp hn).1, hident.1]

/-- What a written type means in the scope of a lookup it means in the schema that is made from
it, if that has the declarations as nodes and the spellings of the tokens. -/
theorem means_of_scope (hidents : ∀ ident, ident ∈ d.idents ↔ ident ∈ l.declarations.names)
    (htokens : Spelling.invert tokens = .ok d.tokens) {e : TypeExpr} {t : SchemaType}
    (h : (l.scope tokens leaves).meaning.Means e t) : (d.meaning leaves).Means e t := by
  refine h.mono (fun {name t} hname ↦ ?_) fun {spelling symbol} htoken ↦ ?_
  · rcases Scope.named_cases hname with
      ⟨rfl, hmem⟩ | ⟨rfl, hmem⟩ | ⟨rfl, hmem⟩ | ⟨ident, hident, rfl⟩
    · exact .group hmem
    · exact .external hmem
    · exact .std hmem
    · have hknown := Alias.known_of_resolve hident
      exact .node ((hidents ident).mpr (List.contains_iff_mem.mp hknown))
  · exact (Spelling.find?_invert htokens symbol spelling).mpr (Table.mem_of_find? htoken)

/-- **A schema that is assembled shows every declaration as one node, and is closed.**  The nodes
stand in strictly increasing order of their names.  Each has the features of its declaration, and
the types that the written types of its declaration mean in the schema itself. -/
theorem assemble_closed (hl : l.IsKeyed)
    (h : (l.assemble tokens leaves version).result = .ok d) :
    d.version = version ∧
      d.idents.Pairwise (· < ·) ∧
      (∀ ident, ident ∈ d.idents ↔ ident ∈ l.declarations.names) ∧
      (∀ n ∈ d.nodes, ∃ declaration, l.declarations.find? n.ident = some declaration ∧
        n.features = declaration.features.names.map .name ∧
        n.data.Lists (d.meaning leaves).Means declaration.members) ∧
      d.IsClosed leaves := by
  rw [result_assemble, definitions_eq_ok] at h
  obtain ⟨hversion, hnodes, htokens⟩ := h
  have hsorted : d.idents = (Spelling.sortEntries l.declarations.entries).map Prod.fst :=
    idents_of_nodes hl hnodes
  have hidents (ident : String) : ident ∈ d.idents ↔ ident ∈ l.declarations.names := by
    rw [hsorted]
    exact ((Spelling.perm_sortEntries _).map Prod.fst).mem_iff
  have hshown (n : Node) (hn : n ∈ d.nodes) :
      ∃ declaration, l.declarations.find? n.ident = some declaration ∧
        n.features = declaration.features.names.map .name ∧
        n.data.Lists (d.meaning leaves).Means declaration.members := by
    obtain ⟨⟨name, declaration⟩, hmem, hnode⟩ := exists_of_mem_right (forall₂_of_nodes hnodes) hn
    have hentry := (Spelling.perm_sortEntries _).subset hmem
    obtain ⟨hname, hfeatures, hlists, -⟩ := Scope.node_eq_ok_iff.mp hnode
    refine ⟨declaration, ?_, hfeatures, hlists.mono fun e t ↦ means_of_scope hidents htokens⟩
    rw [Table.find?_eq_some_iff hl.isMap, hname, hl.ident _ hentry]
    exact hentry
  refine ⟨hversion, ?_, hidents, hshown, Definitions.isClosed_of_lists fun n hn ↦ ?_⟩
  · rw [hsorted, List.pairwise_map]
    exact Spelling.pairwise_lt_sortEntries hl.isMap
  · obtain ⟨declaration, -, -, hlists⟩ := hshown n hn
    exact ⟨declaration.members, hlists⟩

/-- A lookup in which a type goes by an alias, and a token stands between elements. -/
def sample : Lookup where
  declarations := ⟨[
    ("PatTuple", ⟨"PatTuple", .struct
      [⟨"elems", .path ["Punctuated"]
          [.path ["Box"] [.path ["Pat"] []], .macroCall "Token" ","], true⟩], .ofList ["full"]⟩),
    ("Pat", ⟨"Pat", .enum
      [⟨"Lit", [.path ["crate", "PatLit"] []], false⟩, ⟨"Tuple", [.path ["PatTuple"] []], false⟩]
      true, .always⟩),
    ("ExprLit", ⟨"ExprLit", .struct
      [⟨"semi", .tuple [.path ["Ident"] [], .macroCall "Token" ";"], true⟩], .always⟩)]⟩
  aliases := ⟨[("PatLit", "LitOf"), ("LitOf", "ExprLit")]⟩

/-- The spellings for `sample`. -/
def sampleTokens : Table String := ⟨[(";", "Semi"), (",", "Comma")]⟩

/-- The schema of `sample`. -/
def sampleSchema : Definitions :=
  ⟨"1.0",
    [⟨"ExprLit", [], .fields [("semi", .tuple [.external "Ident", .token "Semi"])], true⟩,
      ⟨"Pat", [], .variants [("Lit", [.node "ExprLit"]), ("Tuple", [.node "PatTuple"])], false⟩,
      ⟨"PatTuple", [.name "full"], .fields
        [("elems", .punctuated (.box (.node "Pat")) "Comma")], true⟩],
    ⟨[("Comma", ","), ("Semi", ";")]⟩⟩

theorem isKeyed_sample : sample.IsKeyed := ⟨by decide, by decide⟩

theorem assemble_sample :
    (sample.assemble sampleTokens .default "1.0").result = .ok sampleSchema := by rfl

theorem assemble_closed_sample : sample.IsKeyed ∧
    (sample.assemble sampleTokens .default "1.0").result = .ok sampleSchema ∧
      sampleSchema.idents.Pairwise (· < ·) ∧ sampleSchema.IsClosed .default := by
  obtain ⟨-, hsorted, -, -, hclosed⟩ := assemble_closed isKeyed_sample assemble_sample
  exact ⟨isKeyed_sample, assemble_sample, hsorted, hclosed⟩

end Lookup
end NodeSchema
