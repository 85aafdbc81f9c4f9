import NodeSchema.Proofs.Schema.Closed

/-!
# Schemas do not tell the order of what was found

Tables list their entries in the order in which they came.  A schema is made from what tables hold
under each name, and sorted where it lists all of it, so that tables which are rearrangements of
each other (`Table.Rearranges`) give the same schema (`assemble_congr`).
-/

set_option autoImplicit false

namespace NodeSchema

open Rust

/-! ## Tables -/

namespace Table

variable {α : Type}

/-- Two tables have the same entries, each name once. -/
structure Rearranges (s t : Table α) : Prop where
  isMap : s.IsMap
  perm : s.entries.Perm t.entries

variable {s t : Table α}

theorem Rearranges.isMap_right (h : s.Rearranges t) : t.IsMap :=
  (h.perm.map Prod.fst).nodup_iff.mp h.isMap

theorem Rearranges.find?_eq (h : s.Rearranges t) (name : String) : s.find? name = t.find? name :=
  (perm_iff_find?_eq h.isMap h.isMap_right).mp h.perm name

theorem Rearranges.size_eq (h : s.Rearranges t) : s.size = t.size := h.perm.length_eq

theorem Rearranges.contains_eq (h : s.Rearranges t) (name : String) :
    s.names.contains name = t.names.contains name := by
  rw [Bool.eq_iff_iff, List.contains_iff_mem, List.contains_iff_mem]
  exact (h.perm.map Prod.fst).mem_iff

/-- Pairs with different names make rearranged tables in any order. -/
theorem rearranges_ofPairs {ps qs : List (String × α)} (hperm : ps.Perm qs)
    (h : (ps.map Prod.fst).Nodup) : (ofPairs ps).Rearranges (ofPairs qs) := by
  refine ⟨isMap_ofPairs ps, ?_⟩
  rw [entries_ofPairs h, entries_ofPairs ((hperm.map Prod.fst).nodup_iff.mp h)]
  exact hperm

end Table

/-! ## Turning spellings around -/

namespace Spelling

/-- Entering entries of which no two have one spelling: it fails iff a symbol has a second one. -/
theorem invertFrom_eq_ok_iff {before es : List (String × String)} {t : Table String}
    (hspellings : ((before ++ es).map Prod.fst).Nodup) (hbefore : (before.map Prod.snd).Nodup) :
    invertFrom ⟨before.map Prod.swap⟩ es = .ok t ↔
      ((before ++ es).map Prod.snd).Nodup ∧ t = ⟨(before ++ es).map Prod.swap⟩ := by
  induction es generalizing before with
  | nil =>
    rw [invertFrom, List.append_nil, Except.ok.injEq]
    exact ⟨fun h ↦ ⟨hbefore, h.symm⟩, fun h ↦ h.2.symm⟩
  | cons e es ih =>
    obtain ⟨spelling, symbol⟩ := e
    have happend : before ++ (spelling, symbol) :: es = before ++ [(spelling, symbol)] ++ es := by
      rw [List.append_assoc, List.singleton_append]
    rw [happend] at hspellings ⊢
    have hmap : (⟨before.map Prod.swap⟩ : Table String).IsMap := by
      rw [Table.IsMap, Table.names, List.map_map]
      exact hbefore
    rw [invertFrom]
    by_cases hsymbol : symbol ∈ before.map Prod.snd
    · -- The symbol has a spelling already, and it is another one.
      obtain ⟨⟨other, symbol'⟩, hmem, rfl⟩ := List.mem_map.mp hsymbol
      have hfind : (⟨before.map Prod.swap⟩ : Table String).find? symbol' = some other :=
        (Table.find?_eq_some_iff hmap).mpr (List.mem_map.mpr ⟨_, hmem, rfl⟩)
      have hother : other ≠ spelling := by
        rintro rfl
        rw [List.append_assoc, List.map_append, List.nodup_append] at hspellings
        exact hspellings.2.2 other (List.mem_map_of_mem (f := Prod.fst) hmem) other (by simp) rfl
      rw [hfind]
      dsimp only
      rw [if_neg hother]
      constructor
      · intro h
        cases h
      · rintro ⟨hnodup, -⟩
        rw [List.append_assoc, List.map_append, List.nodup_append] at hnodup
        exact absurd rfl (hnodup.2.2 symbol' hsymbol symbol' (by simp))
    · have hnone : (⟨before.map Prod.swap⟩ : Table String).find? symbol = none := by
        rw [Table.find?_eq_none_iff, Table.names, List.map_map]
        exact hsymbol
      have hinsert : (⟨before.map Prod.swap⟩ : Table String).insert symbol spelling =
          ⟨(before ++ [(spelling, symbol)]).map Prod.swap⟩ := by
        rw [Table.insert, Table.insertInto_of_notMem (Table.find?_eq_none_iff.mp hnone),
          List.map_append]
        rfl
      rw [hnone]
      dsimp only
      rw [hinsert]
      refine ih hspellings ?_
      rw [List.map_append, List.nodup_append]
      refine ⟨hbefore, List.nodup_singleton symbol, ?_⟩
      rintro symbol' hmem _ hsingle rfl
      rw [List.map_singleton, List.mem_singleton] at hsingle
      obtain rfl : symbol' = symbol := hsingle
      exact hsymbol hmem

/-- **A table can be turned around iff no two spellings have one symbol.** -/
theorem invert_eq_ok_iff {table t : Table String} (h : table.IsMap) :
    invert table = .ok t ↔ (table.entries.map Prod.snd).Nodup ∧
      t = ⟨sortEntries (table.entries.map Prod.swap)⟩ := by
  have hfrom (u : Table String) : invertFrom .empty table.entries = .ok u ↔
      (table.entries.map Prod.snd).Nodup ∧ u = ⟨table.entries.map Prod.swap⟩ :=
    @invertFrom_eq_ok_iff [] table.entries u h .nil
  rw [invert, map_eq_ok]
  simp only [hfrom]
  constructor
  · rintro ⟨_, ⟨hnodup, rfl⟩, rfl⟩
    exact ⟨hnodup, rfl⟩
  · rintro ⟨hnodup, rfl⟩
    exact ⟨_, ⟨hnodup, rfl⟩, rfl⟩

theorem invert_congr {s t u : Table String} (h : s.Rearranges t) :
    invert s = .ok u ↔ invert t = .ok u := by
  rw [invert_eq_ok_iff h.isMap, invert_eq_ok_iff h.isMap_right, (h.perm.map Prod.snd).nodup_iff]
  refine and_congr_right fun hnodup ↦ ?_
  have hnames : ((s.entries.map Prod.swap).map Prod.fst).Nodup := by
    rw [List.map_map]
    exact (h.perm.map Prod.snd).nodup_iff.mpr hnodup
  rw [sortEntries_congr hnames (h.perm.map Prod.swap)]

end Spelling

/-! ## Looking up -/

namespace Alias

theorem resolveFrom_congr {aliases aliases' : Table String} {known known' : String → Bool}
    (hfind : ∀ name, aliases.find? name = aliases'.find? name)
    (hknown : ∀ name, known name = known' name) (start : String) (fuel : Nat) (seen : List String)
    (current : String) :
    resolveFrom aliases known start fuel seen current =
      resolveFrom aliases' known' start fuel seen current := by
  induction fuel generalizing seen current with
  | zero => rfl
  | succ fuel ih => simp only [resolveFrom, hfind, hknown, ih]

end Alias

namespace Scope

/-- Two scopes hold the same, their tables in another order. -/
structure Rearranges (s t : Scope) : Prop where
  nodes : ∀ name, s.nodes.contains name = t.nodes.contains name
  aliases : s.aliases.Rearranges t.aliases
  tokens : s.tokens.Rearranges t.tokens
  leaves : s.leaves = t.leaves

variable {s t : Scope}

theorem named_congr (h : s.Rearranges t) (name : String) : s.named name = t.named name := by
  rw [named, named, h.leaves, Alias.resolve, Alias.resolve, h.aliases.size_eq,
    Alias.resolveFrom_congr h.aliases.find?_eq h.nodes]

mutual
theorem introspect_congr (h : s.Rearranges t) (e : TypeExpr) : s.introspect e = t.introspect e := by
  cases e with
  | path segments arguments =>
    rw [introspect, introspect, introspectAll_congr h arguments, named_congr h]
  | tuple elements => rw [introspect, introspect, introspectAll_congr h elements]
  | macroCall name tokens => rw [introspect, introspect, h.tokens.find?_eq]
  | argument text | other text => rfl
theorem introspectAll_congr (h : s.Rearranges t) (es : List TypeExpr) :
    introspectAll s es = introspectAll t es := by
  cases es with
  | nil => rfl
  | cons e es =>
    rw [introspectAll, introspectAll, introspect_congr h e, introspectAll_congr h es]
end

theorem node_congr (h : s.Rearranges t) : s.node = t.node := by
  have hintrospect : s.introspect = t.introspect := funext (introspect_congr h)
  funext d
  rw [node, node]
  simp only [fields, variants, hintrospect]

end Scope

/-! ## Assembling -/

namespace Lookup

/-- Two lookups hold the same, their tables in another order. -/
structure Rearranges (l l' : Lookup) : Prop where
  declarations : l.declarations.Rearranges l'.declarations
  aliases : l.aliases.Rearranges l'.aliases

variable {l l' : Lookup} {tokens tokens' : Table String}

theorem nodes_congr (h : l.Rearranges l') (htokens : tokens.Rearranges tokens')
    (leaves : LeafTables) : l.nodes tokens leaves = l'.nodes tokens' leaves := by
  have hscope : (l.scope tokens leaves).Rearranges (l'.scope tokens' leaves) :=
    ⟨h.declarations.contains_eq, h.aliases, htokens, rfl⟩
  rw [nodes, nodes, Spelling.sortEntries_congr h.declarations.isMap h.declarations.perm,
    Scope.node_congr hscope]

/-- **Assembling forgets the order**: what is rearranged gives the same schema, or none. -/
theorem assemble_congr (h : l.Rearranges l') (htokens : tokens.Rearranges tokens')
    (leaves : LeafTables) (version : String) (d : Definitions) :
    (l.assemble tokens leaves version).result = .ok d ↔
      (l'.assemble tokens' leaves version).result = .ok d := by
  rw [result_assemble, result_assemble, definitions_eq_ok, definitions_eq_ok,
    nodes_congr h htokens, Spelling.invert_congr htokens]

end Lookup
end NodeSchema
