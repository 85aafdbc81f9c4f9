import Mathlib.Logic.Relation
import NodeSchema.Proofs.Spelling.Group

/-!
# The first definition at top level

The search for the table goes over the lexemes that stand in no group (`File.IsTopLevel`): it passes
over a lexeme that is no delimiter and over a group as a whole (`File.Advance`).  It always goes
forward, so it stops, and up to where it stops every group at top level ends and nothing there
defines the macro (`File.IsClear`).

This tells all that can come of it (`File.Finds`): the table of the first definition at top level,
nothing, or the complaint about the first group at top level that does not end.
`File.findTable_outcome` says so.
-/

set_option autoImplicit false

namespace NodeSchema
namespace Spelling
namespace File

/-- The lexeme of an index opens a group. -/
def OpensGroup (f : File) (i : Nat) : Prop := ∃ o due, f.lexemes[i]? = some o ∧ o.Opens due

/-- The group that opens at one index closes at the other. -/
def IsGroup (f : File) (i r : Nat) : Prop :=
  ∃ o due c, f.lexemes[i]? = some o ∧ o.Opens due ∧ i < r ∧ Balanced (f.between i r) ∧
    f.lexemes[r]? = some c ∧ c.Closes due

/-- The lexeme of an index stands in no group. -/
def IsTopLevel (f : File) (k : Nat) : Prop := ¬ ∃ i r, f.IsGroup i r ∧ i < k ∧ k < r

variable {f : File} {i j k r s : Nat}

/-! ## Groups -/

theorem IsGroup.opensGroup (h : f.IsGroup i r) : f.OpensGroup i := by
  obtain ⟨o, due, c, ho, hopens, -⟩ := h
  exact ⟨o, due, ho, hopens⟩

theorem IsGroup.lt (h : f.IsGroup i r) : i < r := by
  obtain ⟨o, due, c, -, -, hlt, -⟩ := h
  exact hlt

theorem IsGroup.lt_length (h : f.IsGroup i r) : r < f.lexemes.length := by
  obtain ⟨o, due, c, -, -, -, -, hc, -⟩ := h
  exact (List.getElem?_eq_some_iff.mp hc).1

theorem IsGroup.closing (h : f.IsGroup i r) : f.closing i = .ok r := by
  obtain ⟨o, due, c, ho, hopens, hlt, hbody, hend⟩ := h
  exact (closing_eq_ok_iff_between ho hopens.2).mpr ⟨hlt, hbody, c, hend⟩

theorem opensGroup_of_closerOf (hf : f.IsLexed) {o : Lexeme} {due : String}
    (ho : f.lexemes[i]? = some o) (hdue : closerOf o.text = some due) : o.Opens due :=
  ⟨hf o (List.mem_of_getElem? ho) (.inl (by rw [hdue]; rfl)), hdue⟩

/-- The search for the end of a group finds it. -/
theorem isGroup_of_closing (hf : f.IsLexed) (h : f.closing i = .ok r) : f.IsGroup i r := by
  obtain ⟨o, due, body, c, rest, hdrop, hdue, -⟩ := closing_eq_ok_iff.mp h
  have ho : f.lexemes[i]? = some o := by rw [← List.head?_drop, hdrop, List.head?_cons]
  obtain ⟨hlt, hbody, c, hend⟩ := (closing_eq_ok_iff_between ho hdue).mp h
  exact ⟨o, due, c, ho, opensGroup_of_closerOf hf ho hdue, hlt, hbody, hend⟩

theorem IsGroup.unique (h : f.IsGroup i r) (h' : f.IsGroup i s) : r = s :=
  Except.ok.inj (h.closing.symm.trans h'.closing)

/-- The end of a group opens none. -/
theorem IsGroup.not_opensGroup (h : f.IsGroup i r) : ¬ f.OpensGroup r := by
  rintro ⟨o', due', ho', hopens'⟩
  obtain ⟨o, due, c, -, hopens, -, -, hc, hcloses⟩ := h
  obtain rfl := Option.some.inj (hc.symm.trans ho')
  exact hcloses.not_opens hopens.2 hopens'

theorem between_split {o : Lexeme} (hij : i < j) (hjr : j < r) (hj : f.lexemes[j]? = some o) :
    f.between i r = f.between i j ++ o :: f.between j r := by
  have hj' : (f.lexemes.take r)[j]? = some o := by rw [List.getElem?_take_of_lt hjr, hj]
  have hdrop := (drop_of_between (f := { f with lexemes := f.lexemes.take r }) hij hj').1
  rwa [between, List.take_take, Nat.min_eq_left (Nat.le_of_lt hjr)] at hdrop

/-- **A group that opens in a group ends in it.** -/
theorem IsGroup.exists_inner (h : f.IsGroup i r) (hj : f.OpensGroup j) (hij : i < j) (hjr : j < r) :
    ∃ s, s < r ∧ f.IsGroup j s := by
  obtain ⟨o, due, ho, hopens⟩ := hj
  obtain ⟨o', due', c', -, -, -, hbody, -⟩ := h
  rw [between_split hij hjr ho] at hbody
  obtain ⟨body, c, rest, hafter, hinner, hc⟩ := hbody.exists_group_of_mem hopens
  obtain ⟨hbetween, hget⟩ :=
    between_of_drop (f := { f with lexemes := f.lexemes.take r }) hafter
  have hlt : j + 1 + body.length < r := by
    have hlength := (List.getElem?_eq_some_iff.mp hget).1
    rw [List.length_take] at hlength
    omega
  rw [List.getElem?_take_of_lt hlt] at hget
  rw [between, List.take_take, Nat.min_eq_left (Nat.le_of_lt hlt)] at hbetween
  exact ⟨_, hlt, o, due, c, ho, hopens, by omega, by rwa [between, hbetween], hget, hc⟩

/-! ## Top level -/

theorem isTopLevel_zero : f.IsTopLevel 0 := fun ⟨_, _, _, h, _⟩ ↦ absurd h (Nat.not_lt_zero _)

theorem IsTopLevel.succ (h : f.IsTopLevel k) (hk : ¬ f.OpensGroup k) : f.IsTopLevel (k + 1) := by
  rintro ⟨i, r, hgroup, hlt, hkr⟩
  rcases Nat.lt_succ_iff_lt_or_eq.mp hlt with hik | rfl
  · exact h ⟨i, r, hgroup, hik, by omega⟩
  · exact hk hgroup.opensGroup

/-- Behind a group at top level is top level. -/
theorem IsTopLevel.after (h : f.IsTopLevel k) (hk : f.IsGroup k r) : f.IsTopLevel (r + 1) := by
  rintro ⟨i, s, hgroup, hlt, hrs⟩
  have hkr := hk.lt
  rcases Nat.lt_trichotomy i k with hik | rfl | hki
  · exact h ⟨i, s, hgroup, hik, by omega⟩
  · have := hk.unique hgroup
    omega
  · rcases Nat.lt_succ_iff_lt_or_eq.mp hlt with hir | rfl
    · obtain ⟨s', hs', hinner⟩ := hk.exists_inner hgroup.opensGroup hki hir
      have := hgroup.unique hinner
      omega
    · exact hk.not_opensGroup hgroup.opensGroup

/-! ## Definitions -/

theorem exists_of_isText {text : String} (h : f.isText i text = true) :
    ∃ l, f.lexemes[i]? = some l ∧ l.text = text := by
  rw [isText] at h
  split at h
  · next l hl => exact ⟨l, hl, of_decide_eq_true h⟩
  · cases h

theorem not_opensGroup_of_isText {text : String} (h : f.isText i text = true)
    (htext : closerOf text = none) : ¬ f.OpensGroup i := by
  rintro ⟨o, due, ho, hopens⟩
  obtain ⟨l, hl, rfl⟩ := exists_of_isText h
  obtain rfl := Option.some.inj (hl.symm.trans ho)
  rw [hopens.2] at htext
  cases htext

/-- The definition of the macro: three lexemes that open no group, and the group of the table. -/
theorem opensGroup_of_beginsTable (hf : f.IsLexed) (h : f.beginsTable k = true) :
    f.OpensGroup (k + 3) ∧ ∀ i, k ≤ i → i < k + 3 → ¬ f.OpensGroup i := by
  simp only [beginsTable, Bool.and_eq_true] at h
  obtain ⟨⟨⟨hname, hbang⟩, hmacro⟩, hopener⟩ := h
  constructor
  · obtain ⟨due, hdue⟩ := Option.isSome_iff_exists.mp hopener
    obtain ⟨o, ho, hdue⟩ := Option.bind_eq_some_iff.mp hdue
    exact ⟨o, due, ho, opensGroup_of_closerOf hf ho hdue⟩
  · intro i hki hik
    obtain rfl | rfl | rfl : i = k ∨ i = k + 1 ∨ i = k + 2 := by omega
    · exact not_opensGroup_of_isText hname rfl
    · exact not_opensGroup_of_isText hbang rfl
    · exact not_opensGroup_of_isText hmacro rfl

theorem lt_length_of_beginsTable (h : f.beginsTable k = true) : k < f.lexemes.length := by
  simp only [beginsTable, Bool.and_eq_true] at h
  obtain ⟨l, hl, -⟩ := exists_of_isText h.1.1.1
  exact (List.getElem?_eq_some_iff.mp hl).1

/-- The end of a group begins no definition. -/
theorem IsGroup.beginsTable_eq_false (h : f.IsGroup i r) : f.beginsTable r = false := by
  refine Bool.eq_false_iff.mpr fun htable ↦ ?_
  simp only [beginsTable, Bool.and_eq_true] at htable
  obtain ⟨l, hl, htext⟩ := exists_of_isText htable.1.1.1
  obtain ⟨o, due, c, -, hopens, -, -, hc, -, hdue⟩ := h
  obtain rfl := Option.some.inj (hl.symm.trans hc)
  have hcloser := (isCloser_of_closerOf hopens.2).1
  rw [← hdue, htext] at hcloser
  exact absurd hcloser (by decide)

/-! ## Rounds of the search -/

/-- One round of the search that goes on, from one index to the next. -/
inductive Advance (f : File) : Nat → Nat → Prop
  | lexeme {i : Nat} (hi : i < f.lexemes.length) (htable : f.beginsTable i = false)
      (hopens : ¬ f.OpensGroup i) : Advance f i (i + 1)
  | group {i r : Nat} (htable : f.beginsTable i = false) (hgroup : f.IsGroup i r) :
      Advance f i (r + 1)

/-- **The search goes forward and does not leave the file.** -/
theorem Advance.lt (h : f.Advance i j) : i < j ∧ j ≤ f.lexemes.length := by
  cases h with
  | lexeme hi => exact ⟨Nat.lt_succ_self i, hi⟩
  | group _ hgroup => exact ⟨Nat.lt_succ_of_lt hgroup.lt, hgroup.lt_length⟩

/-- What the search has left behind: no definition at top level, and no group at top level that does
not end. -/
structure IsClear (f : File) (i : Nat) : Prop where
  isTopLevel : f.IsTopLevel i
  noTable : ∀ k < i, f.IsTopLevel k → f.beginsTable k = false
  ends : ∀ k < i, f.IsTopLevel k → f.OpensGroup k → ∃ r, f.IsGroup k r

theorem isClear_zero : f.IsClear 0 where
  isTopLevel := isTopLevel_zero
  noTable _ h := absurd h (Nat.not_lt_zero _)
  ends _ h := absurd h (Nat.not_lt_zero _)

theorem Advance.isClear (h : f.Advance i j) (hi : f.IsClear i) : f.IsClear j := by
  cases h with
  | lexeme _ htable hopens =>
    refine ⟨hi.isTopLevel.succ hopens, fun k hk hktop ↦ ?_, fun k hk hktop hkopens ↦ ?_⟩
    · rcases Nat.lt_succ_iff_lt_or_eq.mp hk with hk | rfl
      · exact hi.noTable k hk hktop
      · exact htable
    · rcases Nat.lt_succ_iff_lt_or_eq.mp hk with hk | rfl
      · exact hi.ends k hk hktop hkopens
      · exact absurd hkopens hopens
  | @group r htable hgroup =>
    -- Of the lexemes passed over, only the two delimiters of the group are at top level.
    have hcases {k : Nat} (hk : k < r + 1) (hktop : f.IsTopLevel k) : k < i ∨ k = i ∨ k = r := by
      rcases Nat.lt_trichotomy k i with hki | hki | hik
      · exact .inl hki
      · exact .inr (.inl hki)
      · rcases Nat.lt_succ_iff_lt_or_eq.mp hk with hkr | hkr
        · exact absurd ⟨i, r, hgroup, hik, hkr⟩ hktop
        · exact .inr (.inr hkr)
    refine ⟨hi.isTopLevel.after hgroup, fun k hk hktop ↦ ?_, fun k hk hktop hkopens ↦ ?_⟩
    · rcases hcases hk hktop with hk | rfl | rfl
      · exact hi.noTable k hk hktop
      · exact htable
      · exact hgroup.beginsTable_eq_false
    · rcases hcases hk hktop with hk | rfl | rfl
      · exact hi.ends k hk hktop hkopens
      · exact ⟨r, hgroup⟩
      · exact absurd hkopens hgroup.not_opensGroup

theorem isClear_of_advances (h : Relation.ReflTransGen f.Advance 0 i) : f.IsClear i := by
  induction h with
  | refl => exact isClear_zero
  | tail _ h ih => exact h.isClear ih

/-- **The search stops.** -/
theorem exists_stop (f : File) :
    ∃ i, Relation.ReflTransGen f.Advance 0 i ∧ ∀ j, ¬ f.Advance i j := by
  have hstop (n i : Nat) (hn : f.lexemes.length - i ≤ n)
      (hi : Relation.ReflTransGen f.Advance 0 i) :
      ∃ i, Relation.ReflTransGen f.Advance 0 i ∧ ∀ j, ¬ f.Advance i j := by
    induction n generalizing i with
    | zero => exact ⟨i, hi, fun j h ↦ by have := h.lt; omega⟩
    | succ n ih =>
      by_cases hnext : ∃ j, f.Advance i j
      · obtain ⟨j, h⟩ := hnext
        exact ih j (by have := h.lt; omega) (hi.tail h)
      · exact ⟨i, hi, not_exists.mp hnext⟩
  exact hstop _ 0 (Nat.le_refl _) .refl

/-! ### A round is one of the recursion -/

/-- What comes of the search from an index on. -/
def findTableAt (f : File) (i : Nat) : Except Failure (Option (Nat × Nat)) :=
  f.findTableFrom 0 i (f.lexemes.drop i)

theorem findTableFrom_skip (skip index : Nat) (ls : List Lexeme) :
    f.findTableFrom skip index ls = f.findTableFrom 0 (index + skip) (ls.drop skip) := by
  induction skip generalizing index ls with
  | zero => rfl
  | succ skip ih =>
    cases ls with
    | nil => rfl
    | cons l ls => rw [findTableFrom, ih, List.drop_succ_cons, Nat.add_right_comm, Nat.add_assoc]

theorem opens_iff_of_getElem? {l : Lexeme} (hl : f.lexemes[i]? = some l) :
    (decide (l.kind = .punct) && (closerOf l.text).isSome) = true ↔ f.OpensGroup i := by
  rw [Bool.and_eq_true, decide_eq_true_iff, Option.isSome_iff_exists]
  constructor
  · rintro ⟨hkind, due, hdue⟩
    exact ⟨l, due, hl, hkind, hdue⟩
  · rintro ⟨o, due, ho, hopens⟩
    obtain rfl := Option.some.inj (hl.symm.trans ho)
    exact ⟨hopens.1, due, hopens.2⟩

theorem Advance.findTableAt (h : f.Advance i j) : f.findTableAt i = f.findTableAt j := by
  have hi : i < f.lexemes.length := by have := h.lt; omega
  have hl := List.getElem?_eq_getElem hi
  rw [File.findTableAt, List.drop_eq_getElem_cons hi, findTableFrom]
  cases h with
  | lexeme _ htable hopens =>
    rw [if_neg (by rw [htable]; decide), if_neg (by rwa [opens_iff_of_getElem? hl])]
    rfl
  | @group r htable hgroup =>
    have hlt := hgroup.lt
    rw [if_neg (by rw [htable]; decide), if_pos ((opens_iff_of_getElem? hl).mpr hgroup.opensGroup),
      hgroup.closing]
    dsimp only
    have hnext : i + 1 + (r - i) = r + 1 := by omega
    rw [findTableFrom_skip, List.drop_drop, hnext, File.findTableAt]

theorem findTable_of_advances (h : Relation.ReflTransGen f.Advance 0 i) :
    f.findTable = f.findTableAt i := by
  induction h with
  | refl => rfl
  | tail _ h ih => exact ih.trans h.findTableAt

/-! ## What comes of the search -/

/-- What comes of the search: the table of the first definition at top level, nothing, or the
complaint about the first group at top level that does not end. -/
inductive Finds (f : File) : Except Failure (Option (Nat × Nat)) → Prop
  /-- All groups at top level before the definition end, and so does the group of the table. -/
  | table {k e : Nat} (hk : f.IsTopLevel k) (htable : f.beginsTable k = true)
      (hfirst : ∀ i < k, f.IsTopLevel i → f.beginsTable i = false)
      (hends : ∀ i < k, f.IsTopLevel i → f.OpensGroup i → ∃ r, f.IsGroup i r)
      (hgroup : f.IsGroup (k + 3) e) : Finds f (.ok (some (k + 4, e)))
  /-- All groups at top level end, and none is the table of a definition at top level. -/
  | absent (hnone : ∀ i, f.IsTopLevel i → f.beginsTable i = false)
      (hends : ∀ i, f.IsTopLevel i → f.OpensGroup i → ∃ r, f.IsGroup i r) : Finds f (.ok none)
  /-- A group at top level does not end, and the table of no definition at top level opens
  before. -/
  | unclosed {j : Nat} {e : Failure} (hj : f.IsTopLevel j) (hopens : f.OpensGroup j)
      (he : f.closing j = .error e)
      (hends : ∀ i < j, f.IsTopLevel i → f.OpensGroup i → ∃ r, f.IsGroup i r)
      (hfirst : ∀ k, f.IsTopLevel k → f.beginsTable k = true → j ≤ k + 3) : Finds f (.error e)

/-- Where the search stops, its result is known. -/
theorem IsClear.finds (hf : f.IsLexed) (hi : f.IsClear i) (hstop : ∀ j, ¬ f.Advance i j) :
    f.Finds (f.findTableAt i) := by
  have hfirst {k : Nat} (hk : f.IsTopLevel k) (htable : f.beginsTable k = true) : i ≤ k := by
    refine Nat.le_of_not_lt fun hlt ↦ ?_
    rw [hi.noTable k hlt hk] at htable
    cases htable
  by_cases hlt : i < f.lexemes.length
  · have hl := List.getElem?_eq_getElem hlt
    rw [findTableAt, List.drop_eq_getElem_cons hlt, findTableFrom]
    by_cases htable : f.beginsTable i = true
    · obtain ⟨hopens, hplain⟩ := opensGroup_of_beginsTable hf htable
      rw [if_pos htable]
      cases hclosing : f.closing (i + 3) with
      | ok e =>
        exact .table hi.isTopLevel htable hi.noTable hi.ends (isGroup_of_closing hf hclosing)
      | error e =>
        have htop : f.IsTopLevel (i + 3) :=
          ((hi.isTopLevel.succ (hplain i (by omega) (by omega))).succ
            (hplain (i + 1) (by omega) (by omega))).succ (hplain (i + 2) (by omega) (by omega))
        refine .unclosed htop hopens hclosing (fun k hk hktop hkopens ↦ ?_)
          fun k hk hktable ↦ Nat.add_le_add_right (hfirst hk hktable) 3
        by_cases hki : k < i
        · exact hi.ends k hki hktop hkopens
        · exact absurd hkopens (hplain k (by omega) hk)
    · rw [if_neg htable]
      have htable := Bool.eq_false_iff.mpr htable
      by_cases hopens : f.OpensGroup i
      · rw [if_pos ((opens_iff_of_getElem? hl).mpr hopens)]
        cases hclosing : f.closing i with
        | ok r => exact absurd (.group htable (isGroup_of_closing hf hclosing)) (hstop (r + 1))
        | error e =>
          exact .unclosed hi.isTopLevel hopens hclosing hi.ends
            fun k hk hktable ↦ Nat.le_add_right_of_le (hfirst hk hktable)
      · exact absurd (.lexeme hlt htable hopens) (hstop (i + 1))
  · have hlength {k : Nat} (hk : k < f.lexemes.length) : k < i := by omega
    rw [findTableAt, List.drop_eq_nil_of_le (Nat.le_of_not_lt hlt), findTableFrom]
    refine .absent (fun k hk ↦ Bool.eq_false_iff.mpr fun htable ↦ ?_) fun k hk hopens ↦ ?_
    · have := hfirst hk htable
      have := lt_length_of_beginsTable htable
      omega
    · obtain ⟨o, due, ho, -⟩ := id hopens
      exact hi.ends k (hlength (List.getElem?_eq_some_iff.mp ho).1) hk hopens

/-- **Something comes of the search.** -/
theorem finds_findTable (hf : f.IsLexed) : f.Finds f.findTable := by
  obtain ⟨i, hreach, hstop⟩ := exists_stop f
  rw [findTable_of_advances hreach]
  exact (isClear_of_advances hreach).finds hf hstop

/-! ### It is the only thing that can come of it -/

theorem not_isGroup_of_closing {e : Failure} (h : f.closing i = .error e) : ¬ f.IsGroup i r :=
  fun hgroup ↦ by rw [hgroup.closing] at h; cases h

/-- Where the table ends and all before it does, no group is the first that does not end. -/
theorem not_unclosed_of_table (hf : f.IsLexed) {e : Nat} {failure : Failure}
    (hk : f.IsTopLevel k) (htable : f.beginsTable k = true)
    (hends : ∀ i < k, f.IsTopLevel i → f.OpensGroup i → ∃ r, f.IsGroup i r)
    (hgroup : f.IsGroup (k + 3) e) (hj : f.IsTopLevel j) (hopens : f.OpensGroup j)
    (hfailure : f.closing j = .error failure)
    (hfirst : ∀ k, f.IsTopLevel k → f.beginsTable k = true → j ≤ k + 3) : False := by
  rcases Nat.lt_or_ge j k with hlt | hge
  · obtain ⟨r, hr⟩ := hends j hlt hj hopens
    exact not_isGroup_of_closing hfailure hr
  · rcases Nat.eq_or_lt_of_le (hfirst k hk htable) with rfl | hlt
    · exact not_isGroup_of_closing hfailure hgroup
    · exact (opensGroup_of_beginsTable hf htable).2 j hge hlt hopens

theorem Finds.unique (hf : f.IsLexed) {a b : Except Failure (Option (Nat × Nat))} (ha : f.Finds a)
    (hb : f.Finds b) : a = b := by
  cases ha with
  | @table k e hk htable hfirst hends hgroup =>
    cases hb with
    | @table k' e' hk' htable' hfirst' hends' hgroup' =>
      have heq : k = k' := by
        rcases Nat.lt_trichotomy k k' with hlt | heq | hlt
        · rw [hfirst' k hlt hk] at htable; cases htable
        · exact heq
        · rw [hfirst k' hlt hk'] at htable'; cases htable'
      subst heq
      rw [hgroup.unique hgroup']
    | absent hnone => rw [hnone k hk] at htable; cases htable
    | unclosed hj hopens he _ hbefore =>
      exact (not_unclosed_of_table hf hk htable hends hgroup hj hopens he hbefore).elim
  | absent hnone hends =>
    cases hb with
    | table hk htable => rw [hnone _ hk] at htable; cases htable
    | absent => rfl
    | unclosed hj hopens he =>
      obtain ⟨r, hr⟩ := hends _ hj hopens
      exact absurd hr (not_isGroup_of_closing he)
  | @unclosed j e hj hopens he hends hfirst =>
    cases hb with
    | table hk htable _ hends' hgroup =>
      exact (not_unclosed_of_table hf hk htable hends' hgroup hj hopens he hfirst).elim
    | absent _ hends' =>
      obtain ⟨r, hr⟩ := hends' _ hj hopens
      exact absurd hr (not_isGroup_of_closing he)
    | @unclosed j' e' hj' hopens' he' hends' =>
      have heq : j = j' := by
        rcases Nat.lt_trichotomy j j' with hlt | heq | hlt
        · obtain ⟨r, hr⟩ := hends' j hlt hj hopens
          exact absurd hr (not_isGroup_of_closing he)
        · exact heq
        · obtain ⟨r, hr⟩ := hends j' hlt hj' hopens'
          exact absurd hr (not_isGroup_of_closing he')
      subst heq
      rw [Except.error.inj (he.symm.trans he')]

/-- **The search finds the table of the first definition at top level**, where all groups at top
level before it end; it finds nothing where no definition is at top level and all groups there end;
and otherwise it complains about the first group at top level that does not end.  It goes from one
lexeme at top level to a later one until it stops. -/
theorem findTable_outcome (path : String) (text : List Char) :
    (∀ result, (ofText path text).findTable = result ↔ (ofText path text).Finds result) ∧
    (∀ i, Relation.ReflTransGen (ofText path text).Advance 0 i →
      (ofText path text).IsTopLevel i ∧
        (ofText path text).findTable = (ofText path text).findTableAt i) ∧
    (∀ i j, (ofText path text).Advance i j → i < j ∧ j ≤ (ofText path text).lexemes.length) ∧
    ∃ i, Relation.ReflTransGen (ofText path text).Advance 0 i ∧
      ∀ j, ¬ (ofText path text).Advance i j := by
  have hf := isLexed_ofText path text
  refine ⟨fun result ↦ ⟨?_, fun h ↦ (finds_findTable hf).unique hf h⟩,
    fun i h ↦ ⟨(isClear_of_advances h).isTopLevel, findTable_of_advances h⟩, fun _ _ h ↦ h.lt,
    exists_stop _⟩
  rintro rfl
  exact finds_findTable hf

end File
end Spelling
end NodeSchema
