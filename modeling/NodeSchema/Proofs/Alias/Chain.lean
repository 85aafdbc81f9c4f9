import NodeSchema.Proofs.Alias

/-!
# The chain of a name

A name, what it is an alias of, what that is an alias of in turn, and so on make up the chain of the
name (`chain`).  `Search` is the walk along the chain, in which every look-up of an alias counts and
nothing bounds their number.  The names that are passed are different and all but the last are
aliases (`Passed.le_size`), so there are no more look-ups than aliases, and one (`exists_search`).

The chain alone decides how the walk ends (`Ends`), and it does so in one way only (`Ends.unique`):
at the first known name, at a name that comes a second time, or at one that is no alias.
-/

set_option autoImplicit false

namespace NodeSchema
namespace Alias

/-! ## Chains -/

/-- The names that aliases lead to from a name, one after the other. -/
def chain (aliases : Table String) (name : String) : Nat → Option String
  | 0 => some name
  | n + 1 => (chain aliases name n).bind aliases.find?

/-- None of the first names of a chain is known. -/
def UnknownBelow (aliases : Table String) (known : String → Bool) (name : String) (n : Nat) :
    Prop :=
  ∀ i < n, ∀ x, chain aliases name i = some x → known x = false

/-- The names of a chain are different as far as the given one. -/
def FreshUpTo (aliases : Table String) (name : String) (n : Nat) : Prop :=
  ∀ i j, i < j → j ≤ n → chain aliases name i ≠ chain aliases name j

/-- The first known name of a chain, which comes before any name comes a second time. -/
def Reaches (aliases : Table String) (known : String → Bool) (name ident : String) : Prop :=
  ∃ n, chain aliases name n = some ident ∧ known ident = true ∧
    UnknownBelow aliases known name n ∧ FreshUpTo aliases name n

/-- A name comes a second time before any known name. -/
def Repeats (aliases : Table String) (known : String → Bool) (name : String) : Prop :=
  ∃ i j, i < j ∧ chain aliases name i = chain aliases name j ∧ chain aliases name j ≠ none ∧
    UnknownBelow aliases known name j

/-- A name comes that is no alias before any known name. -/
def Stops (aliases : Table String) (known : String → Bool) (name : String) : Prop :=
  ∃ n x, chain aliases name n = some x ∧ aliases.find? x = none ∧
    UnknownBelow aliases known name (n + 1)

variable {aliases : Table String} {known : String → Bool} {name : String}

theorem chain_of_find? {target : String} (h : aliases.find? name = some target) (n : Nat) :
    chain aliases name (n + 1) = chain aliases target n := by
  induction n with
  | zero => exact h
  | succ n ih => rw [chain, ih, chain]

theorem chain_add {i j : Nat} (h : chain aliases name i = chain aliases name j) (d : Nat) :
    chain aliases name (i + d) = chain aliases name (j + d) := by
  induction d with
  | zero => exact h
  | succ d ih => rw [← Nat.add_assoc, ← Nat.add_assoc, chain, chain, ih]

theorem chain_eq_none_of_le {m n : Nat} (h : chain aliases name m = none) (hmn : m ≤ n) :
    chain aliases name n = none := by
  induction hmn with
  | refl => exact h
  | step _ ih => rw [chain, ih]; rfl

theorem exists_chain_of_le {m n : Nat} {x : String} (h : chain aliases name n = some x)
    (hmn : m ≤ n) : ∃ y, chain aliases name m = some y := by
  refine Option.ne_none_iff_exists'.mp fun hnone ↦ ?_
  rw [chain_eq_none_of_le hnone hmn] at h
  cases h

theorem UnknownBelow.succ {n : Nat} {x : String} (h : UnknownBelow aliases known name n)
    (hx : chain aliases name n = some x) (hknown : known x = false) :
    UnknownBelow aliases known name (n + 1) := by
  intro i hi y hy
  rcases Nat.lt_succ_iff_lt_or_eq.mp hi with hi | rfl
  · exact h i hi y hy
  · obtain rfl := Option.some.inj (hx.symm.trans hy)
    exact hknown

/-- Once a name comes a second time, only names come that came before. -/
theorem exists_lt_of_repeat {i j : Nat} (hij : i < j)
    (h : chain aliases name i = chain aliases name j) (k : Nat) :
    ∃ m < j, chain aliases name k = chain aliases name m := by
  induction k using Nat.strongRecOn with
  | _ k ih =>
    by_cases hk : k < j
    · exact ⟨k, hk, rfl⟩
    · obtain ⟨d, rfl⟩ := Nat.exists_eq_add_of_le (Nat.not_lt.mp hk)
      rw [← chain_add h d]
      exact ih (i + d) (Nat.add_lt_add_right hij d)

/-- The names up to the first known one are different: where a name comes a second time, no known
one follows. -/
theorem freshUpTo_of_unknownBelow {n : Nat} {ident : String}
    (h : chain aliases name n = some ident) (hknown : known ident = true)
    (hbelow : UnknownBelow aliases known name n) : FreshUpTo aliases name n := by
  intro i j hij hjn heq
  obtain ⟨m, hm, heq⟩ := exists_lt_of_repeat hij heq n
  rw [hbelow m (Nat.lt_of_lt_of_le hm hjn) ident (heq ▸ h)] at hknown
  cases hknown

/-! ## Ends of chains -/

/-- How a walk along the chain of a name ends. -/
inductive Ends (aliases : Table String) (known : String → Bool) (name : String) :
    Except Failure String → Prop
  | known {ident : String} (h : Reaches aliases known name ident) :
    Ends aliases known name (.ok ident)
  | cycle (h : Repeats aliases known name) : Ends aliases known name (.error (.aliasCycle name))
  | unknown (h : Stops aliases known name) : Ends aliases known name (.error (.unknownType name))

theorem Repeats.unknown (h : Repeats aliases known name) (k : Nat) :
    ∃ x, chain aliases name k = some x ∧ known x = false := by
  obtain ⟨i, j, hij, heq, hne, hbelow⟩ := h
  obtain ⟨m, hm, hk⟩ := exists_lt_of_repeat hij heq k
  obtain ⟨y, hy⟩ := Option.ne_none_iff_exists'.mp hne
  obtain ⟨x, hx⟩ := exists_chain_of_le hy (Nat.le_of_lt hm)
  exact ⟨x, hk.trans hx, hbelow m hm x hx⟩

theorem Stops.exists_eq_none (h : Stops aliases known name) :
    ∃ n, chain aliases name n = none ∧ UnknownBelow aliases known name n := by
  obtain ⟨n, x, hx, hnone, hbelow⟩ := h
  refine ⟨n + 1, ?_, hbelow⟩
  rw [chain, hx]
  exact hnone

theorem Reaches.unique {x y : String} (hx : Reaches aliases known name x)
    (hy : Reaches aliases known name y) : x = y := by
  obtain ⟨m, hm, hxknown, hxbelow, -⟩ := hx
  obtain ⟨n, hn, hyknown, hybelow, -⟩ := hy
  rcases Nat.lt_trichotomy m n with h | rfl | h
  · rw [hybelow m h x hm] at hxknown
    cases hxknown
  · exact Option.some.inj (hm.symm.trans hn)
  · rw [hxbelow n h y hn] at hyknown
    cases hyknown

theorem Reaches.not_repeats {ident : String} (h : Reaches aliases known name ident) :
    ¬ Repeats aliases known name := by
  intro hrepeats
  obtain ⟨n, hn, hknown, -⟩ := h
  obtain ⟨x, hx, hunknown⟩ := hrepeats.unknown n
  obtain rfl := Option.some.inj (hn.symm.trans hx)
  rw [hknown] at hunknown
  cases hunknown

theorem Reaches.not_stops {ident : String} (h : Reaches aliases known name ident) :
    ¬ Stops aliases known name := by
  intro hstops
  obtain ⟨n, hn, hknown, -⟩ := h
  obtain ⟨m, hnone, hbelow⟩ := hstops.exists_eq_none
  rcases Nat.lt_or_ge n m with hnm | hmn
  · rw [hbelow n hnm ident hn] at hknown
    cases hknown
  · rw [chain_eq_none_of_le hnone hmn] at hn
    cases hn

theorem Repeats.not_stops (h : Repeats aliases known name) : ¬ Stops aliases known name := by
  intro hstops
  obtain ⟨n, hnone, -⟩ := hstops.exists_eq_none
  obtain ⟨x, hx, -⟩ := h.unknown n
  rw [hnone] at hx
  cases hx

/-- **A chain ends in one way only.** -/
theorem Ends.unique {o o' : Except Failure String} (h : Ends aliases known name o)
    (h' : Ends aliases known name o') : o = o' := by
  cases h with
  | known h =>
    cases h' with
    | known h' => rw [h.unique h']
    | cycle h' => exact absurd h' h.not_repeats
    | unknown h' => exact absurd h' h.not_stops
  | cycle h =>
    cases h' with
    | known h' => exact absurd h h'.not_repeats
    | cycle => rfl
    | unknown h' => exact absurd h' h.not_stops
  | unknown h =>
    cases h' with
    | known h' => exact absurd h h'.not_stops
    | cycle h' => exact absurd h h'.not_stops
    | unknown => rfl

/-! ## The walk -/

/-- The walk along a chain from the name `current` on, where `seen` holds the names that came so
far: the number of aliases that are looked up, and how it ends. -/
inductive Search (aliases : Table String) (known : String → Bool) (start : String) :
    List String → String → Nat → Except Failure String → Prop
  | known {seen : List String} {current : String} (h : known current = true) :
    Search aliases known start seen current 0 (.ok current)
  | unknown {seen : List String} {current : String} (h : known current = false)
      (hnone : aliases.find? current = none) :
    Search aliases known start seen current 1 (.error (.unknownType start))
  | cycle {seen : List String} {current target : String} (h : known current = false)
      (htarget : aliases.find? current = some target) (hseen : target ∈ seen) :
    Search aliases known start seen current 1 (.error (.aliasCycle start))
  | step {seen : List String} {current target : String} {n : Nat} {o : Except Failure String}
      (h : known current = false) (htarget : aliases.find? current = some target)
      (hseen : target ∉ seen) (hsearch : Search aliases known start (target :: seen) target n o) :
    Search aliases known start seen current (n + 1) o

/-- What is seen when a walk has come to the `n`-th name of a chain. -/
structure Passed (aliases : Table String) (known : String → Bool) (name : String) (n : Nat)
    (seen : List String) (current : String) : Prop where
  current : chain aliases name n = some current
  seen : ∀ x, x ∈ seen ↔ ∃ i ≤ n, chain aliases name i = some x
  fresh : FreshUpTo aliases name n
  unknown : UnknownBelow aliases known name n

theorem passed_zero : Passed aliases known name 0 [name] name := by
  refine ⟨rfl, fun x ↦ ?_, fun i j hij hj ↦ absurd hij (by omega), fun i hi ↦ absurd hi (by omega)⟩
  rw [List.mem_singleton]
  constructor
  · rintro rfl
    exact ⟨0, Nat.le_refl 0, rfl⟩
  · rintro ⟨i, hi, hx⟩
    obtain rfl := Nat.le_zero.mp hi
    exact (Option.some.inj hx).symm

namespace Passed

variable {n : Nat} {seen : List String} {current target : String}
  (h : Passed aliases known name n seen current)
include h

theorem chain_succ : chain aliases name (n + 1) = aliases.find? current := by
  rw [chain, h.current]
  rfl

theorem step (hunknown : known current = false) (htarget : aliases.find? current = some target)
    (hseen : target ∉ seen) : Passed aliases known name (n + 1) (target :: seen) target := by
  have hchain : chain aliases name (n + 1) = some target := h.chain_succ.trans htarget
  refine ⟨hchain, fun x ↦ ?_, fun i j hij hj ↦ ?_, h.unknown.succ h.current hunknown⟩
  · rw [List.mem_cons, h.seen]
    constructor
    · rintro (rfl | ⟨i, hi, hx⟩)
      · exact ⟨n + 1, Nat.le_refl _, hchain⟩
      · exact ⟨i, Nat.le_succ_of_le hi, hx⟩
    · rintro ⟨i, hi, hx⟩
      rcases Nat.le_succ_iff.mp hi with hi | rfl
      · exact .inr ⟨i, hi, hx⟩
      · exact .inl (Option.some.inj (hx.symm.trans hchain))
  · rcases Nat.le_succ_iff.mp hj with hj | rfl
    · exact h.fresh i j hij hj
    · intro heq
      exact hseen ((h.seen target).mpr ⟨i, Nat.le_of_lt_succ hij, heq.trans hchain⟩)

/-- All names that were passed are aliases, and they are different. -/
theorem le_size : n ≤ aliases.size := by
  have hnodup : ((List.range n).map (chain aliases name)).Nodup := by
    refine List.Nodup.map_on (fun i hi j hj heq ↦ ?_) List.nodup_range
    by_contra hne
    rcases Nat.lt_or_gt_of_ne hne with hlt | hlt
    · exact h.fresh i j hlt (Nat.le_of_lt (List.mem_range.mp hj)) heq
    · exact h.fresh j i hlt (Nat.le_of_lt (List.mem_range.mp hi)) heq.symm
  have hsubset : (List.range n).map (chain aliases name) ⊆ aliases.names.map some := by
    intro o ho
    obtain ⟨i, hi, rfl⟩ := List.mem_map.mp ho
    have hi : i + 1 ≤ n := List.mem_range.mp hi
    obtain ⟨x, hx⟩ := exists_chain_of_le h.current (Nat.le_of_succ_le hi)
    obtain ⟨target, htarget⟩ := exists_chain_of_le h.current hi
    rw [chain, hx] at htarget
    rw [hx]
    exact List.mem_map_of_mem (Table.mem_names_iff.mpr ⟨target, htarget⟩)
  have hle := (hnodup.subperm hsubset).length_le
  rwa [List.length_map, List.length_range, List.length_map, Table.names, List.length_map] at hle

/-- The walk ends within the look-ups that are left. -/
theorem exists_search {fuel : Nat} (hfuel : fuel + n = aliases.size + 1) : ∃ k ≤ fuel,
    Search aliases known name seen current k
      (resolveFrom aliases known name fuel seen current) := by
  induction fuel generalizing n seen current with
  | zero =>
    have := h.le_size
    omega
  | succ fuel ih =>
    rw [resolveFrom]
    split
    · next hknown => exact ⟨0, Nat.zero_le _, .known hknown⟩
    · next hunknown =>
      have hunknown := Bool.eq_false_iff.mpr hunknown
      split
      · next hnone => exact ⟨1, Nat.le_add_left 1 fuel, .unknown hunknown hnone⟩
      · next target htarget =>
        split
        · next hseen =>
          exact ⟨1, Nat.le_add_left 1 fuel,
            .cycle hunknown htarget (List.contains_iff_mem.mp hseen)⟩
        · next hseen =>
          have hseen := mt List.contains_iff_mem.mpr hseen
          obtain ⟨k, hk, hsearch⟩ := ih (h.step hunknown htarget hseen) (by omega)
          exact ⟨k + 1, Nat.succ_le_succ hk, .step hunknown htarget hseen hsearch⟩

end Passed

/-- However a walk ends, the chain ends so. -/
theorem ends_of_search {n k : Nat} {seen : List String} {current : String}
    {o : Except Failure String} (h : Passed aliases known name n seen current)
    (hsearch : Search aliases known name seen current k o) : Ends aliases known name o := by
  induction hsearch generalizing n with
  | known hknown =>
    exact .known ⟨n, h.current, hknown, h.unknown, h.fresh⟩
  | unknown hunknown hnone =>
    exact .unknown ⟨n, _, h.current, hnone, h.unknown.succ h.current hunknown⟩
  | cycle hunknown htarget hseen =>
    obtain ⟨i, hi, hchain⟩ := (h.seen _).mp hseen
    have hsucc := h.chain_succ.trans htarget
    refine .cycle ⟨i, n + 1, Nat.lt_succ_of_le hi, hchain.trans hsucc.symm, ?_,
      h.unknown.succ h.current hunknown⟩
    rw [hsucc]
    exact Option.some_ne_none _
  | step hunknown htarget hseen _ ih => exact ih (h.step hunknown htarget hseen)

/-! ## What a name is resolved to -/

/-- The walk ends after at most one look-up more than there are aliases. -/
theorem exists_search (aliases : Table String) (known : String → Bool) (name : String) :
    ∃ k ≤ aliases.size + 1,
      Search aliases known name [name] name k (resolve aliases known name) :=
  passed_zero.exists_search rfl

theorem resolve_eq_iff {o : Except Failure String} :
    resolve aliases known name = o ↔ Ends aliases known name o := by
  obtain ⟨k, -, hsearch⟩ := exists_search aliases known name
  have hends := ends_of_search passed_zero hsearch
  exact ⟨fun h ↦ h ▸ hends, hends.unique⟩

theorem resolve_eq_ok_iff {ident : String} :
    resolve aliases known name = .ok ident ↔ Reaches aliases known name ident := by
  rw [resolve_eq_iff]
  refine ⟨fun h ↦ ?_, .known⟩
  cases h with
  | known h => exact h

/-- A name reaches what the name reaches that it is an alias of. -/
theorem reaches_of_find? {target : String} (h : aliases.find? name = some target)
    (hunknown : known name = false) (ident : String) :
    Reaches aliases known name ident ↔ Reaches aliases known target ident := by
  have hchain := chain_of_find? h
  constructor
  · rintro ⟨n, hn, hknown, hbelow, -⟩
    cases n with
    | zero =>
      obtain rfl := Option.some.inj hn
      rw [hknown] at hunknown
      cases hunknown
    | succ n =>
      rw [hchain] at hn
      have hbelow' : UnknownBelow aliases known target n := fun i hi x hx ↦
        hbelow (i + 1) (Nat.succ_lt_succ hi) x ((hchain i).trans hx)
      exact ⟨n, hn, hknown, hbelow', freshUpTo_of_unknownBelow hn hknown hbelow'⟩
  · rintro ⟨n, hn, hknown, hbelow, -⟩
    have hbelow' : UnknownBelow aliases known name (n + 1) := by
      intro i hi x hx
      cases i with
      | zero =>
        obtain rfl := Option.some.inj hx
        exact hunknown
      | succ i => exact hbelow i (Nat.lt_of_succ_lt_succ hi) x ((hchain i).symm.trans hx)
    have hn' := (hchain n).trans hn
    exact ⟨n + 1, hn', hknown, hbelow', freshUpTo_of_unknownBelow hn' hknown hbelow'⟩

/-- **What a name is resolved to is told by its chain.**  The walk along it ends after at most one
look-up more than there are aliases, in one of three ways: at the first known name, if one comes
before a name comes a second time; with a cycle, if a name comes a second time before any known one;
or with an unknown type, at a name that is neither known nor an alias.  So an alias that is not
known itself is resolved as what it is an alias of. -/
theorem resolve_outcome (aliases : Table String) (known : String → Bool) (name : String) :
    (∃ k ≤ aliases.size + 1,
      Search aliases known name [name] name k (resolve aliases known name)) ∧
    (∀ ident, resolve aliases known name = .ok ident ↔ Reaches aliases known name ident) ∧
    (resolve aliases known name = .error (.aliasCycle name) ↔ Repeats aliases known name) ∧
    (resolve aliases known name = .error (.unknownType name) ↔ Stops aliases known name) ∧
    ((∃ ident, Reaches aliases known name ident) ∨ Repeats aliases known name ∨
      Stops aliases known name) ∧
    ∀ target, aliases.find? name = some target → known name = false → ∀ ident,
      resolve aliases known name = .ok ident ↔ resolve aliases known target = .ok ident := by
  refine ⟨exists_search aliases known name, fun ident ↦ resolve_eq_ok_iff, ?_, ?_, ?_,
    fun target htarget hunknown ident ↦ ?_⟩
  · rw [resolve_eq_iff]
    refine ⟨fun h ↦ ?_, .cycle⟩
    cases h with
    | cycle h => exact h
  · rw [resolve_eq_iff]
    refine ⟨fun h ↦ ?_, .unknown⟩
    cases h with
    | unknown h => exact h
  · obtain ⟨outcome, houtcome⟩ : ∃ outcome, resolve aliases known name = outcome := ⟨_, rfl⟩
    cases resolve_eq_iff.mp houtcome with
    | known h => exact .inl ⟨_, h⟩
    | cycle h => exact .inr (.inl h)
    | unknown h => exact .inr (.inr h)
  · rw [resolve_eq_ok_iff, resolve_eq_ok_iff]
    exact reaches_of_find? htarget hunknown ident

/-- An alias of an alias of a known name is resolved as that alias is. -/
theorem resolve_alias_of_alias :
    resolve (.ofPairs [("A", "B"), ("B", "C")]) (· = "C") "A" = .ok "C" ↔
      resolve (.ofPairs [("A", "B"), ("B", "C")]) (· = "C") "B" = .ok "C" :=
  (resolve_outcome (.ofPairs [("A", "B"), ("B", "C")]) (· = "C") "A").2.2.2.2.2 "B"
    (by decide +kernel) (by decide) "C"

end Alias
end NodeSchema
