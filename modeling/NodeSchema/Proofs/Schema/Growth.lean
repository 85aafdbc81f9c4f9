import Mathlib.Data.List.InsertIdx
import NodeSchema.Proofs.Schema.Members
import NodeSchema.Proofs.Schema.Order

/-!
# Schemas grow locally

A crate that declares one more node, renames one more export, or spells one more token has the old
schema with at most one entry more (`assemble_grows`).  Types are looked up by names, and a name
that was not there could cut the way of another one short.  It does not: a lookup that succeeds
asks for entries that are there, and for the absence of names that lead on.

* `Scope.Extends` — a scope holds what another does, and what it knows in addition was no alias;
* `Scope.Extends.resolve`, `Scope.Extends.named`, `Scope.Extends.node` — so names, types and
  declarations that mean something keep their meaning;
* `Spelling.sortEntries_concat` — sorting puts one more entry in its place, and moves no other.
-/

set_option autoImplicit false

namespace NodeSchema

open Rust

/-! ## One more entry among sorted ones -/

namespace Spelling

variable {α : Type}

/-- An entry with a new name goes behind those with smaller names. -/
theorem insertSorted_eq_insertIdx {e : String × α} {es : List (String × α)}
    (h : es.Pairwise fun a b ↦ a.1 ≤ b.1) (he : e.1 ∉ es.map Prod.fst) :
    insertSorted e es = es.insertIdx ((es.map Prod.fst).countP (· < e.1)) e := by
  induction es with
  | nil => rfl
  | cons f fs ih =>
    obtain ⟨hf, hfs⟩ := List.pairwise_cons.mp h
    rw [List.map_cons, List.mem_cons, not_or] at he
    rw [insertSorted, List.map_cons]
    by_cases hlt : e.1 < f.1
    · have hzero : (f.1 :: fs.map Prod.fst).countP (· < e.1) = 0 := by
        refine List.countP_eq_zero.mpr fun name hname ↦ ?_
        rw [decide_eq_true_eq, not_lt]
        rcases List.mem_cons.mp hname with rfl | hname
        · exact hlt.le
        · obtain ⟨g, hg, rfl⟩ := List.mem_map.mp hname
          exact hlt.le.trans (hf g hg)
      rw [if_pos hlt, hzero, List.insertIdx_zero]
    · have hfirst : f.1 < e.1 := lt_of_le_of_ne (not_lt.mp hlt) (Ne.symm he.1)
      rw [if_neg hlt, List.countP_cons_of_pos (p := (· < e.1)) (decide_eq_true hfirst),
        List.insertIdx_succ_cons, ih hfs he.2]

/-- **Sorting puts one more entry in its place**, and moves no other. -/
theorem sortEntries_concat {e : String × α} {es : List (String × α)}
    (he : e.1 ∉ es.map Prod.fst) : sortEntries (es ++ [e]) =
      (sortEntries es).insertIdx ((es.map Prod.fst).countP (· < e.1)) e := by
  have hnames := (perm_sortEntries es).map Prod.fst
  have hlast : sortEntries (es ++ [e]) = insertSorted e (sortEntries es) := List.foldl_concat ..
  rw [hlast, insertSorted_eq_insertIdx (pairwise_sortEntries es) (mt hnames.mem_iff.mp he),
    hnames.countP_eq]

end Spelling

/-- Lists that are related element by element stay so with related elements in one place. -/
theorem forall₂_insertIdx {α β : Type} {R : α → β → Prop} {as : List α} {bs : List β} {a : α}
    {b : β} (h : List.Forall₂ R as bs) (hab : R a b) (i : Nat) :
    List.Forall₂ R (as.insertIdx i a) (bs.insertIdx i b) := by
  induction h generalizing i with
  | nil =>
    cases i with
    | zero => exact .cons hab .nil
    | succ i => exact .nil
  | cons hcd hrest ih =>
    cases i with
    | zero => exact .cons hab (.cons hcd hrest)
    | succ i => exact .cons hcd (ih i)

/-! ## Larger scopes -/

namespace Table

variable {α : Type} {t : Table α} {name : String} {value : α}

theorem size_le_size_insert : t.size ≤ (t.insert name value).size := by
  have hnames : (t.insert name value).names.length = (t.insert name value).size :=
    List.length_map _
  rw [← hnames, names_insert]
  split
  · exact (List.length_map _).ge
  · rw [List.length_append, names, List.length_map]
    exact Nat.le_add_right _ _

/-- A new entry does not change what is found under another name. -/
theorem find?_insert_of_find? {other : String} {found : α} (hname : name ∉ t.names)
    (h : t.find? other = some found) : (t.insert name value).find? other = some found := by
  have hne : name ≠ other := by
    rintro rfl
    exact hname (mem_names_iff.mpr ⟨found, h⟩)
  rw [find?_insert, if_neg hne, h]

end Table

namespace Scope

/-- A scope holds what another does, and the nodes that it knows in addition are no aliases of the
other. -/
structure Extends (s s' : Scope) : Prop where
  nodes : ∀ name ∈ s.nodes, name ∈ s'.nodes
  fresh : ∀ name ∈ s'.nodes, name ∈ s.nodes ∨ s.aliases.find? name = none
  aliases : ∀ name target, s.aliases.find? name = some target →
    s'.aliases.find? name = some target
  size : s.aliases.size ≤ s'.aliases.size
  tokens : ∀ spelling symbol, s.tokens.find? spelling = some symbol →
    s'.tokens.find? spelling = some symbol
  leaves : s'.leaves = s.leaves

namespace Extends

variable {s s' : Scope}

/-- **A chain of aliases that leads to a node is followed as before.**  Each name on it is a node
in both scopes, or an alias that no scope has as a node. -/
theorem resolveFrom (h : s.Extends s') {start current ident : String} {seen : List String}
    {fuel fuel' : Nat} (hfuel : fuel ≤ fuel')
    (hident : Alias.resolveFrom s.aliases s.nodes.contains start fuel seen current = .ok ident) :
    Alias.resolveFrom s'.aliases s'.nodes.contains start fuel' seen current = .ok ident := by
  induction fuel generalizing seen current fuel' with
  | zero => cases hident
  | succ fuel ih =>
    obtain ⟨fuel', rfl⟩ := Nat.exists_eq_succ_of_ne_zero (Nat.ne_zero_of_lt hfuel)
    rw [Alias.resolveFrom] at hident ⊢
    by_cases hknown : current ∈ s.nodes
    · rw [if_pos (List.contains_iff_mem.mpr hknown)] at hident
      rw [if_pos (List.contains_iff_mem.mpr (h.nodes current hknown)), hident]
    · rw [if_neg (mt List.contains_iff_mem.mp hknown)] at hident
      cases hfind : s.aliases.find? current with
      | none =>
        rw [hfind] at hident
        cases hident
      | some target =>
        have hunknown : current ∉ s'.nodes := by
          intro hnew
          rcases h.fresh current hnew with hold | hnone
          · exact hknown hold
          · exact absurd (hfind.symm.trans hnone) (Option.some_ne_none target)
        rw [hfind] at hident
        rw [if_neg (mt List.contains_iff_mem.mp hunknown), h.aliases current target hfind]
        dsimp only at hident ⊢
        split at hident
        · cases hident
        · next hseen =>
          rw [if_neg hseen]
          exact ih (Nat.le_of_succ_le_succ hfuel) hident

theorem resolve (h : s.Extends s') {name ident : String}
    (hident : Alias.resolve s.aliases s.nodes.contains name = .ok ident) :
    Alias.resolve s'.aliases s'.nodes.contains name = .ok ident :=
  h.resolveFrom (Nat.succ_le_succ h.size) hident

/-- A name keeps its meaning. -/
theorem named (h : s.Extends s') {name : String} {t : SchemaType} (ht : s.named name = .ok t) :
    s'.named name = .ok t := by
  rw [Scope.named] at ht ⊢
  rw [h.leaves]
  by_cases hgroup : s.leaves.groups.contains name = true
  · rwa [if_pos hgroup] at ht ⊢
  by_cases hexternal : s.leaves.external.contains name = true
  · rwa [if_neg hgroup, if_pos hexternal] at ht ⊢
  by_cases hstd : s.leaves.std.contains name = true
  · rwa [if_neg hgroup, if_neg hexternal, if_pos hstd] at ht ⊢
  rw [if_neg hgroup, if_neg hexternal, if_neg hstd] at ht ⊢
  obtain ⟨ident, hident, rfl⟩ := map_eq_ok.mp ht
  exact map_eq_ok.mpr ⟨ident, h.resolve hident, rfl⟩

theorem means (h : s.Extends s') {e : TypeExpr} {t : SchemaType} (ht : s.meaning.Means e t) :
    s'.meaning.Means e t :=
  ht.mono h.named (h.tokens _ _)

/-- **A declaration makes the node that it made.** -/
theorem node (h : s.Extends s') {d : Declaration} {n : Node} (hn : s.node d = .ok n) :
    s'.node d = .ok n := by
  obtain ⟨hident, hfeatures, hlists, hexhaustive⟩ := node_eq_ok_iff.mp hn
  exact node_eq_ok_iff.mpr ⟨hident, hfeatures, hlists.mono fun _ _ ↦ h.means, hexhaustive⟩

end Extends

/-- A declaration makes a node if the types that it shows mean something. -/
theorem exists_node {s : Scope} {d : Declaration}
    (htypes : d.members.IsShown → ∀ e ∈ d.members.shownTypes, ∃ t, s.introspect e = .ok t) :
    ∃ n, s.node d = .ok n := by
  by_cases hshown : d.members.IsShown
  · obtain ⟨n, -, hn, -⟩ := exists_node_of_shown hshown (htypes hshown)
    exact ⟨n, hn⟩
  · obtain ⟨ident, members, features⟩ := d
    cases members with
    | struct fs => exact ⟨_, by rw [node_struct, if_neg (mt List.all_eq_true.mp hshown)]⟩
    | enum vs nonExhaustive => exact absurd trivial hshown

end Scope

/-! ## Assembling -/

namespace Lookup

/-- One more declaration. -/
def declare (l : Lookup) (c : Declaration) : Lookup :=
  { l with declarations := l.declarations.insert c.ident c }

/-- One more alias. -/
def rename (l : Lookup) (name target : String) : Lookup :=
  { l with aliases := l.aliases.insert name target }

variable {l : Lookup} {tokens : Table String} {leaves : LeafTables} {version : String}
  {d : Definitions}

theorem extends_declare {c : Declaration} (halias : c.ident ∉ l.aliases.names) :
    (l.scope tokens leaves).Extends ((l.declare c).scope tokens leaves) := by
  have hnames : (l.declare c).declarations.names = if c.ident ∈ l.declarations.names then
      l.declarations.names else l.declarations.names ++ [c.ident] := Table.names_insert ..
  refine ⟨fun name hname ↦ ?_, fun name hname ↦ ?_, fun _ _ h ↦ h, le_rfl, fun _ _ h ↦ h, rfl⟩
  · show name ∈ (l.declare c).declarations.names
    rw [hnames]
    split
    · exact hname
    · exact List.mem_append_left _ hname
  · change name ∈ (l.declare c).declarations.names at hname
    rw [hnames] at hname
    split at hname
    · exact .inl hname
    · rcases List.mem_append.mp hname with hname | hname
      · exact .inl hname
      · rw [List.mem_singleton.mp hname]
        exact .inr (Table.find?_eq_none_iff.mpr halias)

theorem extends_rename {name target : String} (hname : name ∉ l.aliases.names) :
    (l.scope tokens leaves).Extends ((l.rename name target).scope tokens leaves) :=
  ⟨fun _ h ↦ h, fun _ h ↦ .inl h, fun _ _ ↦ Table.find?_insert_of_find? hname,
    Table.size_le_size_insert, fun _ _ h ↦ h, rfl⟩

theorem extends_spelling {spelling symbol : String} (hspelling : spelling ∉ tokens.names) :
    (l.scope tokens leaves).Extends (l.scope (tokens.insert spelling symbol) leaves) :=
  ⟨fun _ h ↦ h, fun _ h ↦ .inl h, fun _ _ h ↦ h, le_rfl,
    fun _ _ ↦ Table.find?_insert_of_find? hspelling, rfl⟩

/-- The same declarations make the same nodes in a larger scope. -/
theorem nodes_of_extends {l' : Lookup} {tokens' : Table String}
    (hdeclarations : l'.declarations = l.declarations)
    (h : (l.scope tokens leaves).Extends (l'.scope tokens' leaves)) {ns : List Node}
    (hns : l.nodes tokens leaves = .ok ns) : l'.nodes tokens' leaves = .ok ns := by
  rw [nodes, hdeclarations]
  exact mapM_eq_ok.mpr ((forall₂_of_nodes hns).imp fun _ _ ↦ h.node)

/-- One more declaration makes one more node, and the others make the same. -/
theorem nodes_declare {c : Declaration} (hident : c.ident ∉ l.declarations.names)
    (halias : c.ident ∉ l.aliases.names) {n : Node} {ns : List Node}
    (hns : l.nodes tokens leaves = .ok ns)
    (hn : ((l.declare c).scope tokens leaves).node c = .ok n) :
    (l.declare c).nodes tokens leaves =
      .ok (ns.insertIdx (l.declarations.names.countP (· < c.ident)) n) := by
  have hentries : (l.declare c).declarations.entries = l.declarations.entries ++ [(c.ident, c)] :=
    Table.insertInto_of_notMem hident
  have hold := (forall₂_of_nodes hns).imp fun _ _ ↦ (extends_declare halias).node
  rw [nodes, hentries, Spelling.sortEntries_concat hident]
  exact mapM_eq_ok.mpr (forall₂_insertIdx hold hn _)

/-- One more spelling of a symbol that had none. -/
theorem invert_insert {t : Table String} (htokens : tokens.IsMap) {spelling symbol : String}
    (hspelling : spelling ∉ tokens.names) (hsymbol : symbol ∉ tokens.entries.map Prod.snd)
    (h : Spelling.invert tokens = .ok t) :
    Spelling.invert (tokens.insert spelling symbol) =
      .ok ⟨t.entries.insertIdx (t.names.countP (· < symbol)) (symbol, spelling)⟩ := by
  obtain ⟨hnodup, rfl⟩ := (Spelling.invert_eq_ok_iff htokens).mp h
  have hentries :
      (tokens.insert spelling symbol).entries = tokens.entries ++ [(spelling, symbol)] :=
    Table.insertInto_of_notMem hspelling
  have hswap : (tokens.entries.map Prod.swap).map Prod.fst = tokens.entries.map Prod.snd := by
    rw [List.map_map]
    rfl
  refine (Spelling.invert_eq_ok_iff (htokens.insert _ _)).mpr ⟨?_, congrArg Table.mk ?_⟩
  · rw [hentries, List.map_append]
    exact List.nodup_append_comm.mp (List.nodup_cons.mpr ⟨hsymbol, hnodup⟩)
  · have hnames := (Spelling.perm_sortEntries (tokens.entries.map Prod.swap)).map Prod.fst
    rw [hentries, List.map_append, Table.names, hnames.countP_eq]
    exact (Spelling.sortEntries_concat (hswap ▸ hsymbol)).symm

/-- **Schemas grow locally.**  A crate that declares one more node has the old nodes, and the new
one in its place among them; one more alias changes nothing; and with one more spelling of a new
symbol the schema has the old spellings, and the new one in its place. -/
theorem assemble_grows (htokens : tokens.IsMap)
    (h : (l.assemble tokens leaves version).result = .ok d) :
    (∀ c : Declaration, c.ident ∉ l.declarations.names → c.ident ∉ l.aliases.names →
      (c.members.IsShown → ∀ e ∈ c.members.shownTypes,
        ∃ t, ((l.declare c).scope tokens leaves).introspect e = .ok t) →
      ∃ n, ((l.declare c).scope tokens leaves).node c = .ok n ∧
        ((l.declare c).assemble tokens leaves version).result = .ok { d with
          nodes := d.nodes.insertIdx (l.declarations.names.countP (· < c.ident)) n }) ∧
    (∀ name target : String, name ∉ l.aliases.names →
      ((l.rename name target).assemble tokens leaves version).result = .ok d) ∧
    ∀ spelling symbol : String, spelling ∉ tokens.names → symbol ∉ tokens.entries.map Prod.snd →
      (l.assemble (tokens.insert spelling symbol) leaves version).result = .ok { d with
        tokens := ⟨d.tokens.entries.insertIdx (d.tokens.names.countP (· < symbol))
          (symbol, spelling)⟩ } := by
  rw [result_assemble, definitions_eq_ok] at h
  obtain ⟨hversion, hnodes, hspellings⟩ := h
  refine ⟨fun c hident halias htypes ↦ ?_, fun name target hname ↦ ?_,
    fun spelling symbol hspelling hsymbol ↦ ?_⟩
  · obtain ⟨n, hn⟩ := Scope.exists_node htypes
    refine ⟨n, hn, ?_⟩
    rw [result_assemble, definitions_eq_ok]
    exact ⟨hversion, nodes_declare hident halias hnodes hn, hspellings⟩
  · rw [result_assemble, definitions_eq_ok]
    have hsame : (l.rename name target).declarations = l.declarations := rfl
    exact ⟨hversion, nodes_of_extends hsame (extends_rename hname) hnodes, hspellings⟩
  · rw [result_assemble, definitions_eq_ok]
    exact ⟨hversion, nodes_of_extends rfl (extends_spelling hspelling) hnodes,
      invert_insert htokens hspelling hsymbol hspellings⟩

/-- A declaration for `sample` that refers to a node by an alias, and to itself. -/
def sampleLocal : Declaration :=
  ⟨"Local", .struct
    [⟨"pat", .path ["PatLit"] [], true⟩,
      ⟨"next", .path ["Option"] [.path ["Box"] [.path ["Local"] []]], true⟩], .always⟩

theorem assemble_grows_sample : sampleTokens.IsMap ∧
    (sample.assemble sampleTokens .default "1.0").result = .ok sampleSchema ∧
    (∃ n, ((sample.declare sampleLocal).assemble sampleTokens .default "1.0").result =
      .ok { sampleSchema with nodes := sampleSchema.nodes.insertIdx 1 n }) ∧
    ((sample.rename "Local" "Pat").assemble sampleTokens .default "1.0").result =
      .ok sampleSchema ∧
    (sample.assemble (sampleTokens.insert "+" "Plus") .default "1.0").result =
      .ok { sampleSchema with tokens := ⟨[("Comma", ","), ("Plus", "+"), ("Semi", ";")]⟩ } := by
  have htokens : sampleTokens.IsMap := by decide
  obtain ⟨hdeclare, hrename, hspelling⟩ := assemble_grows htokens assemble_sample
  obtain ⟨n, -, hn⟩ := hdeclare sampleLocal (by decide) (by decide) (by
    rintro - e he
    rcases List.mem_cons.mp he with rfl | he
    · exact ⟨.node "ExprLit", rfl⟩
    · rw [List.mem_singleton.mp he]
      exact ⟨.option (.box (.node "Local")), rfl⟩)
  exact ⟨htokens, assemble_sample, ⟨n, hn⟩, hrename "Local" "Pat" (by decide),
    hspelling "+" "Plus" (by decide) (by decide)⟩

end Lookup
end NodeSchema
