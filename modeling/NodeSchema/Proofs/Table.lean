import Mathlib.Data.List.Nodup
import Mathlib.Data.List.Perm.Subperm
import NodeSchema.Table

/-!
# Tables as maps

A table is a list of entries, and what it means is the map `Table.find?`.  This file says when the
two views agree, which takes that no name has two entries (`Table.IsMap`).

* `isMap_ofPairs` — every table that is made by entering pairs is a map;
* `find?_eq_some_iff` — in a map, what is found under a name is what is entered under it;
* `perm_iff_find?_eq` — two maps agree everywhere iff one is a rearrangement of the other;
* `find?_ofPairs` — of several pairs with one name the last is found.
-/

set_option autoImplicit false

namespace NodeSchema
namespace Table

variable {α : Type}

/-- No name has two entries. -/
def IsMap (t : Table α) : Prop := t.names.Nodup

instance (t : Table α) : Decidable t.IsMap := inferInstanceAs (Decidable t.names.Nodup)

/-! ## Entering -/

theorem isMap_empty : (empty : Table α).IsMap := List.nodup_nil

theorem IsMap.insert {t : Table α} (h : t.IsMap) (name : String) (value : α) :
    (t.insert name value).IsMap := by
  rw [IsMap, names_insert]
  split
  · exact h
  · next hname =>
    rw [List.nodup_append]
    refine ⟨h, List.nodup_singleton name, fun a ha b hb hab ↦ hname ?_⟩
    rw [List.mem_singleton] at hb
    rwa [← hb, ← hab]

theorem IsMap.insertAll {t : Table α} (h : t.IsMap) (pairs : List (String × α)) :
    (t.insertAll pairs).IsMap := by
  induction pairs generalizing t with
  | nil => exact h
  | cons p ps ih => exact ih (h.insert p.1 p.2)

theorem isMap_ofPairs (pairs : List (String × α)) : (ofPairs pairs).IsMap :=
  isMap_empty.insertAll pairs

theorem names_insertAll (t : Table α) (pairs : List (String × α)) :
    (t.insertAll pairs).names = t.names ++ ((pairs.map Prod.fst).removeAll t.names).eraseDups := by
  induction pairs generalizing t with
  | nil => exact (List.append_nil _).symm
  | cons p ps ih =>
    show ((t.insert p.1 p.2).insertAll ps).names = _
    rw [ih, names_insert]
    by_cases hp : p.1 ∈ t.names
    · rw [if_pos hp, List.map_cons, List.cons_removeAll, if_neg (by simpa using hp)]
    · rw [if_neg hp, List.map_cons, List.cons_removeAll, if_pos (by simpa using hp),
        List.eraseDups_cons, List.append_assoc, List.singleton_append]
      congr 3
      simp only [List.removeAll, List.filter_filter]
      exact List.filter_congr fun name _ ↦ by
        rw [Bool.eq_iff_iff]
        simp [and_comm]

/-- **Names come in the order in which they came first.** -/
theorem names_ofPairs (pairs : List (String × α)) :
    (ofPairs pairs).names = (pairs.map Prod.fst).eraseDups := by
  rw [ofPairs, names_insertAll]
  show [] ++ ((pairs.map Prod.fst).removeAll []).eraseDups = _
  rw [List.nil_append, List.removeAll_nil]

theorem insertInto_of_notMem {name : String} {value : α} {es : List (String × α)}
    (h : name ∉ es.map Prod.fst) : insertInto name value es = es ++ [(name, value)] := by
  induction es with
  | nil => rfl
  | cons e rest ih =>
    obtain ⟨n, v⟩ := e
    rw [List.map_cons, List.mem_cons, not_or] at h
    rw [insertInto, if_neg (Ne.symm h.1), ih h.2, List.cons_append]

theorem entries_insertAll {t : Table α} {pairs : List (String × α)}
    (h : (t.names ++ pairs.map Prod.fst).Nodup) :
    (t.insertAll pairs).entries = t.entries ++ pairs := by
  induction pairs generalizing t with
  | nil => rw [List.append_nil]; rfl
  | cons p ps ih =>
    have hp : p.1 ∉ t.names := fun hmem ↦
      (List.nodup_append.mp h).2.2 p.1 hmem p.1 (by simp) rfl
    have hentries : (t.insert p.1 p.2).entries = t.entries ++ [p] := insertInto_of_notMem hp
    have hnames : (t.insert p.1 p.2).names = t.names ++ [p.1] := by
      rw [names_insert, if_neg hp]
    have hrest : ((t.insert p.1 p.2).names ++ ps.map Prod.fst).Nodup := by
      rw [hnames, List.append_assoc]
      exact h
    show ((t.insert p.1 p.2).insertAll ps).entries = _
    rw [ih hrest, hentries, List.append_assoc, List.singleton_append]

/-- Pairs with different names are entered as they stand. -/
theorem entries_ofPairs {pairs : List (String × α)} (h : (pairs.map Prod.fst).Nodup) :
    (ofPairs pairs).entries = pairs := by
  rw [ofPairs, entries_insertAll (show ((empty : Table α).names ++ _).Nodup from h)]
  rfl

/-! ## Finding -/

theorem find?_eq_none_iff {t : Table α} {name : String} :
    t.find? name = none ↔ name ∉ t.names := by
  rw [find?, Option.map_eq_none_iff, List.find?_eq_none, names, List.mem_map]
  constructor
  · rintro h ⟨e, he, rfl⟩
    exact h e he (by simp)
  · intro h e he hname
    exact h ⟨e, he, by simpa using hname⟩

theorem mem_of_find? {t : Table α} {name : String} {value : α}
    (h : t.find? name = some value) : (name, value) ∈ t.entries := by
  obtain ⟨e, he, rfl⟩ := Option.map_eq_some_iff.mp h
  have hname : e.1 = name := by simpa using List.find?_some he
  rw [← hname]
  exact List.mem_of_find?_eq_some he

theorem mem_names_iff {t : Table α} {name : String} :
    name ∈ t.names ↔ ∃ value, t.find? name = some value := by
  rw [← Option.isSome_iff_exists, ← Option.ne_none_iff_isSome, Ne, find?_eq_none_iff, not_not]

/-- **In a map, what is found under a name is what is entered under it.** -/
theorem find?_eq_some_iff {t : Table α} (ht : t.IsMap) {name : String} {value : α} :
    t.find? name = some value ↔ (name, value) ∈ t.entries := by
  refine ⟨mem_of_find?, fun hmem ↦ ?_⟩
  obtain ⟨other, hother⟩ := mem_names_iff.mp (List.mem_map_of_mem (f := Prod.fst) hmem)
  have hsame := List.inj_on_of_nodup_map ht (mem_of_find? hother) hmem rfl
  rw [hother, (Prod.mk.inj hsame).2]

theorem IsMap.nodup_entries {t : Table α} (h : t.IsMap) : t.entries.Nodup :=
  List.Nodup.of_map Prod.fst h

/-- **Two maps that agree everywhere differ in the order of their entries at most.** -/
theorem perm_iff_find?_eq {s t : Table α} (hs : s.IsMap) (ht : t.IsMap) :
    s.entries.Perm t.entries ↔ ∀ name, s.find? name = t.find? name := by
  rw [List.perm_ext_iff_of_nodup hs.nodup_entries ht.nodup_entries]
  constructor
  · intro h name
    refine Option.ext fun value ↦ ?_
    rw [find?_eq_some_iff hs, find?_eq_some_iff ht, h]
  · rintro h ⟨name, value⟩
    rw [← find?_eq_some_iff hs, ← find?_eq_some_iff ht, h]

/-! ## The last of several values -/

/-- The values that pairs give to a name, in order. -/
def valuesOf (name : String) (pairs : List (String × α)) : List α :=
  (pairs.filter fun p ↦ p.1 = name).map Prod.snd

theorem find?_insertAll (t : Table α) (pairs : List (String × α)) (name : String) :
    (t.insertAll pairs).find? name = (valuesOf name pairs).getLast?.or (t.find? name) := by
  induction pairs generalizing t with
  | nil => rfl
  | cons p ps ih =>
    show ((t.insert p.1 p.2).insertAll ps).find? name = _
    rw [ih, find?_insert, valuesOf, valuesOf, List.filter_cons]
    by_cases hp : p.1 = name
    · rw [if_pos hp, if_pos (by simpa using hp), List.map_cons, List.getLast?_cons]
      cases (List.map Prod.snd (ps.filter fun p ↦ p.1 = name)).getLast? <;> rfl
    · rw [if_neg hp, if_neg (by simpa using hp)]

/-- **Of several values that are entered under one name, the last is found.** -/
theorem find?_ofPairs (pairs : List (String × α)) (name : String) :
    (ofPairs pairs).find? name = (valuesOf name pairs).getLast? := by
  rw [ofPairs, find?_insertAll]
  cases (valuesOf name pairs).getLast? <;> rfl

/-- Every entry is one of those that were entered. -/
theorem mem_of_mem_ofPairs {pairs : List (String × α)} {e : String × α}
    (h : e ∈ (ofPairs pairs).entries) : e ∈ pairs := by
  obtain ⟨name, value⟩ := e
  rw [← find?_eq_some_iff (isMap_ofPairs pairs), find?_ofPairs] at h
  obtain ⟨p, hp, rfl⟩ := List.mem_map.mp (List.mem_of_getLast? h)
  obtain ⟨hmem, hname⟩ := List.mem_filter.mp hp
  rw [← of_decide_eq_true hname]
  exact hmem

/-- Entering the entries of a map, what they do not name stays. -/
theorem find?_insertAll_entries {s : Table α} (hs : s.IsMap) (t : Table α) (name : String) :
    (t.insertAll s.entries).find? name = (s.find? name).or (t.find? name) := by
  have hentries : ofPairs s.entries = s := congrArg Table.mk (entries_ofPairs hs)
  rw [find?_insertAll, ← find?_ofPairs, hentries]

end Table
end NodeSchema
