import NodeSchema.Proofs.Schema.Order

/-!
# Spellings and symbols

A table of spellings can be turned around iff it is injective: no symbol has two spellings
(`exists_invert_iff`).  Turned around, it is the inverse of the table on both sides
(`find?_invert_iff`) and lists its symbols in increasing order (`pairwise_names_invert`).

What is said where a table is refused is true of it: `exists_of_invertFrom_eq_error` follows the
entries up to the first one whose symbol has another spelling already.
-/

set_option autoImplicit false

namespace NodeSchema

/-! ## Injective tables -/

namespace Table

variable {α : Type}

/-- No two names have the same value. -/
def IsInjective (t : Table α) : Prop :=
  ∀ name other value, t.find? name = some value → t.find? other = some value → name = other

/-- A map is injective iff no value is listed twice. -/
theorem IsMap.nodup_values_iff {t : Table α} (h : t.IsMap) :
    (t.entries.map Prod.snd).Nodup ↔ t.IsInjective := by
  constructor
  · intro hnodup name other value hname hother
    have hentry : (name, value) = (other, value) :=
      List.inj_on_of_nodup_map hnodup (mem_of_find? hname) (mem_of_find? hother) rfl
    exact congrArg Prod.fst hentry
  · intro hinj
    refine h.nodup_entries.map_on ?_
    rintro ⟨name, value⟩ hname ⟨other, value'⟩ hother hvalue
    obtain rfl : value = value' := hvalue
    have heq : name = other := hinj name other value ((find?_eq_some_iff h).mpr hname)
      ((find?_eq_some_iff h).mpr hother)
    rw [heq]

end Table

namespace Spelling

variable {table t : Table String}

/-! ## A table that can be turned around -/

/-- **A table can be turned around iff no symbol has two spellings.** -/
theorem exists_invert_iff (h : table.IsMap) : (∃ t, invert table = .ok t) ↔ table.IsInjective := by
  rw [← h.nodup_values_iff]
  constructor
  · rintro ⟨t, ht⟩
    exact ((invert_eq_ok_iff h).mp ht).1
  · exact fun hnodup ↦ ⟨_, (invert_eq_ok_iff h).mpr ⟨hnodup, rfl⟩⟩

/-- **Looking up a symbol undoes looking up its spelling, and the other way round.** -/
theorem find?_invert_iff (h : table.IsMap) (ht : invert table = .ok t) (symbol spelling : String) :
    t.find? symbol = some spelling ↔ table.find? spelling = some symbol := by
  rw [find?_invert ht, Table.find?_eq_some_iff h]

theorem pairwise_names_invert (ht : invert table = .ok t) : t.names.Pairwise (· < ·) := by
  obtain ⟨u, hu, rfl⟩ := map_eq_ok.mp ht
  exact List.pairwise_map.mpr
    (pairwise_lt_sortEntries (isMap_invertFrom Table.isMap_empty hu))

theorem size_invert (h : table.IsMap) (ht : invert table = .ok t) : t.size = table.size := by
  obtain ⟨-, rfl⟩ := (invert_eq_ok_iff h).mp ht
  rw [Table.size, (perm_sortEntries _).length_eq, List.length_map, Table.size]

/-! ## A table that is refused -/

/-- The entry at which entering stops has a symbol that another spelling had before. -/
theorem exists_of_invertFrom_eq_error {inverted : Table String} {es : List (String × String)}
    {f : Failure} (h : invertFrom inverted es = .error f) :
    ∃ symbol first second, first ≠ second ∧ f = .twoSpellings symbol first second ∧
      (inverted.find? symbol = some first ∨ (first, symbol) ∈ es) ∧ (second, symbol) ∈ es := by
  induction es generalizing inverted with
  | nil => cases h
  | cons e rest ih =>
    obtain ⟨spelling, symbol⟩ := e
    rw [invertFrom] at h
    split at h
    · next other hother =>
      split at h
      · obtain ⟨symbol', first, second, hne, rfl, hfirst, hsecond⟩ := ih h
        exact ⟨symbol', first, second, hne, rfl, hfirst.imp_right (List.mem_cons_of_mem _),
          List.mem_cons_of_mem _ hsecond⟩
      · next hne =>
        cases h
        exact ⟨symbol, other, spelling, hne, rfl, .inl hother, List.mem_cons_self⟩
    · obtain ⟨symbol', first, second, hne, rfl, hfirst, hsecond⟩ := ih h
      refine ⟨symbol', first, second, hne, rfl, ?_, List.mem_cons_of_mem _ hsecond⟩
      rcases hfirst with hfind | hmem
      · -- The first spelling is one that was there before, or the one that has just come in.
        rw [Table.find?_insert] at hfind
        split at hfind
        · next heq =>
          rw [← heq, ← Option.some.inj hfind]
          exact .inr List.mem_cons_self
        · exact .inl hfind
      · exact .inr (List.mem_cons_of_mem _ hmem)

/-- **A table is refused for a symbol and two spellings that have it.** -/
theorem exists_of_invert_eq_error (h : table.IsMap) {f : Failure} (hf : invert table = .error f) :
    ∃ symbol first second, first ≠ second ∧ table.find? first = some symbol ∧
      table.find? second = some symbol ∧ f = .twoSpellings symbol first second := by
  obtain ⟨symbol, first, second, hne, hfail, hfirst, hsecond⟩ :=
    exists_of_invertFrom_eq_error (map_eq_error.mp hf)
  rcases hfirst with hfind | hfirst
  · cases hfind
  · exact ⟨symbol, first, second, hne, (Table.find?_eq_some_iff h).mpr hfirst,
      (Table.find?_eq_some_iff h).mpr hsecond, hfail⟩

/-- Rearranged tables are refused together. -/
theorem invert_eq_error_congr {s t : Table String} (h : s.Rearranges t) :
    (∃ f, invert s = .error f) ↔ ∃ f, invert t = .error f := by
  have hfails (table : Table String) :
      (∃ f, invert table = .error f) ↔ ¬ ∃ u, invert table = .ok u := by
    cases invert table <;> simp
  rw [hfails, hfails]
  exact not_congr (exists_congr fun u ↦ invert_congr h)

/-! ## The outcome -/

/-- **Turning a table around gives its inverse, in the order of the symbols, iff no symbol has two
spellings**; otherwise it complains about a symbol and two spellings that have it.  The order of the
entries makes no difference to either. -/
theorem invert_outcome (table : Table String) (h : table.IsMap) :
    ((∃ t, invert table = .ok t) ↔ table.IsInjective) ∧
    (∀ t, invert table = .ok t →
      t.names.Pairwise (· < ·) ∧
      (∀ symbol spelling, t.find? symbol = some spelling ↔ table.find? spelling = some symbol) ∧
      t.size = table.size) ∧
    (∀ f, invert table = .error f →
      f.category = .construct ∧
      ∃ symbol first second, first ≠ second ∧ table.find? first = some symbol ∧
        table.find? second = some symbol ∧ f = .twoSpellings symbol first second) ∧
    ∀ other, table.Rearranges other →
      (∀ t, invert table = .ok t ↔ invert other = .ok t) ∧
      ((∃ f, invert table = .error f) ↔ ∃ f, invert other = .error f) := by
  refine ⟨exists_invert_iff h, fun t ht ↦ ?_, fun f hf ↦ ?_, fun other hother ↦ ?_⟩
  · exact ⟨pairwise_names_invert ht, find?_invert_iff h ht, size_invert h ht⟩
  · have hnamed := exists_of_invert_eq_error h hf
    obtain ⟨symbol, first, second, -, -, -, rfl⟩ := id hnamed
    exact ⟨rfl, hnamed⟩
  · exact ⟨fun t ↦ invert_congr hother, invert_eq_error_congr hother⟩

/-- Two of three spellings have one symbol, and one of the two is empty. -/
theorem invert_outcome_shared :
    (⟨[("", "Dot"), ("+", "Plus"), (".", "Dot")]⟩ : Table String).IsMap ∧
      invert ⟨[("", "Dot"), ("+", "Plus"), (".", "Dot")]⟩ = .error (.twoSpellings "Dot" "" ".") ∧
      ¬ (⟨[("", "Dot"), ("+", "Plus"), (".", "Dot")]⟩ : Table String).IsInjective := by
  have hmap : (⟨[("", "Dot"), ("+", "Plus"), (".", "Dot")]⟩ : Table String).IsMap := by decide
  have herror : invert ⟨[("", "Dot"), ("+", "Plus"), (".", "Dot")]⟩ =
      .error (.twoSpellings "Dot" "" ".") := by decide
  refine ⟨hmap, herror, fun hinj ↦ ?_⟩
  obtain ⟨t, ht⟩ := (invert_outcome _ hmap).1.mpr hinj
  rw [herror] at ht
  cases ht

end Spelling
end NodeSchema
