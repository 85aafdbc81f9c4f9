import NodeSchema.Proofs.Result
import NodeSchema.Rust.Cursor

/-!
# What a cursor finds

What an operation of a cursor does is told by the tokens ahead of it (`Cursor.rest`): it takes the
token or the attributes that they begin with, and the others stay ahead.

* `expect_of_rest`, `expectIdentifier_of_rest`, `eatMarker_of_marker` — an operation that finds what
  it takes;
* `exists_of_expect`, `exists_of_expectIdentifier`, `exists_of_expectGroup` — what was ahead of an
  operation that took something;
* `exists_attributes` — attributes are stepped over as far as they go.
-/

set_option autoImplicit false

namespace NodeSchema
namespace Rust

theorem Tree.text_leaf (t : Token) : (leaf t).text = t.text := String.ofList_toList

namespace Cursor

variable {c c' : Cursor} {t g : Tree} {u : Token} {ts : List Tree} {text name opener : String}

/-! ## The tokens ahead -/

theorem rest_ofGroup (source : Source) (g : Tree) : (ofGroup source g).rest = g.body := rfl

theorem peek_zero (c : Cursor) : c.peek 0 = c.rest.head? := by
  rw [rest, List.head?_drop]
  rfl

theorem peek_one (c : Cursor) : c.peek 1 = c.rest[1]? := (List.getElem?_drop ..).symm

theorem length_rest (c : Cursor) : c.rest.length = c.tokens.length - c.index := List.length_drop

theorem rest_advance (c : Cursor) (n : Nat) : (c.advance n).rest = c.rest.drop n := by
  rw [rest, rest, List.drop_drop]
  rfl

theorem rest_advance_one (h : c.rest = t :: ts) : (c.advance 1).rest = ts := by
  rw [rest_advance, h]
  rfl

theorem offset_of_rest (h : c.rest = t :: ts) : c.offset = t.start := by
  rw [offset, peek_zero, h]
  rfl

theorem rest_eq_nil_iff : c.rest = [] ↔ c.atEnd = true := by
  rw [rest, List.drop_eq_nil_iff, atEnd, decide_eq_true_eq]

theorem atEnd_of_rest (h : c.rest = t :: ts) : c.atEnd = false := by
  refine Bool.eq_false_iff.mpr fun hend ↦ ?_
  rw [rest_eq_nil_iff.mpr hend] at h
  cases h

theorem sees_zero_iff :
    c.sees text 0 = true ↔ ∃ t later, c.rest = t :: later ∧ t.text = text := by
  rw [sees, peek_zero]
  cases c.rest <;> simp

/-! ## Single tokens -/

theorem expect_of_rest (h : c.rest = t :: ts) : c.expect t.text = .ok (t, c.advance 1) := by
  have hpeek : c.peek 0 = some t := by
    rw [peek_zero, h]
    rfl
  have hsees : c.sees t.text 0 = true := by
    rw [sees, hpeek]
    exact decide_eq_true rfl
  rw [expect, if_pos hsees, next, hpeek]

theorem exists_of_expect (h : c.expect text = .ok (t, c')) :
    ∃ later, c.rest = t :: later ∧ t.text = text ∧ c' = c.advance 1 := by
  rw [expect] at h
  split at h
  · next hsees =>
    obtain ⟨x, later, hrest, hx⟩ := sees_zero_iff.mp hsees
    rw [next, peek_zero, hrest] at h
    obtain ⟨rfl, rfl⟩ := Prod.mk.inj (Except.ok.inj h)
    exact ⟨later, hrest, hx, rfl⟩
  · cases h

theorem expectIdentifier_of_rest (h : c.rest = .leaf u :: ts) (hu : u.isIdentifier = true) :
    c.expectIdentifier = .ok (u.text, c.advance 1) := by
  rw [expectIdentifier, peek_zero, h]
  exact if_pos hu

theorem exists_of_expectIdentifier (h : c.expectIdentifier = .ok (name, c')) :
    ∃ u later, c.rest = .leaf u :: later ∧ u.isIdentifier = true ∧ u.text = name ∧
      c' = c.advance 1 := by
  rw [expectIdentifier, peek_zero] at h
  match hrest : c.rest with
  | [] | .group _ _ _ :: _ =>
    rw [hrest] at h
    cases h
  | .leaf u :: later =>
    rw [hrest, List.head?_cons] at h
    dsimp only at h
    split at h
    · next hident =>
      obtain ⟨rfl, rfl⟩ := Prod.mk.inj (Except.ok.inj h)
      exact ⟨u, later, rfl, hident, rfl, rfl⟩
    · cases h

theorem exists_of_expectGroup (h : c.expectGroup opener = .ok (t, c')) :
    ∃ later, c.rest = t :: later ∧ t.opener? = some opener ∧ c' = c.advance 1 := by
  rw [expectGroup, peek_zero] at h
  cases hrest : c.rest with
  | nil =>
    rw [hrest] at h
    cases h
  | cons x later =>
    rw [hrest, List.head?_cons] at h
    dsimp only at h
    split at h
    · next hopener =>
      obtain ⟨rfl, rfl⟩ := Prod.mk.inj (Except.ok.inj h)
      exact ⟨later, rfl, hopener, rfl⟩
    · cases h

theorem rest_of_expectEnd {x : Unit} (h : c.expectEnd = .ok x) : c.rest = [] := by
  rw [expectEnd] at h
  split at h
  · next hend => exact rest_eq_nil_iff.mpr hend
  · cases h

/-- Two expected trees and an identifier. -/
theorem head_of_rest {pub kind : Tree} (h : c.rest = pub :: kind :: .leaf u :: ts)
    (hu : u.isIdentifier = true) : c.expect pub.text = .ok (pub, c.advance 1) ∧
      (c.advance 1).expect kind.text = .ok (kind, c.advance 2) ∧
        (c.advance 2).expectIdentifier = .ok (u.text, c.advance 3) ∧ (c.advance 3).rest = ts := by
  have hkind : (c.advance 1).rest = kind :: .leaf u :: ts := rest_advance_one h
  have hname : (c.advance 2).rest = .leaf u :: ts := rest_advance_one hkind
  exact ⟨expect_of_rest h, expect_of_rest hkind, expectIdentifier_of_rest hname hu,
    rest_advance_one hname⟩

/-! ## Markers -/

theorem eatMarker_of_marker {hash : Tree} (h : c.rest = hash :: .leaf u :: ts)
    (hhash : hash.text = "#") (hu : u.isIdentifier = true) :
    c.eatMarker u.text = (true, c.advance 2) := by
  have hpeek : c.peek 1 = some (.leaf u) := by
    rw [peek_one, h]
    rfl
  have hsees : c.sees "#" 0 = true := sees_zero_iff.mpr ⟨hash, .leaf u :: ts, h, hhash⟩
  rw [eatMarker, hpeek]
  dsimp only
  rw [hsees, hu, decide_eq_true rfl]
  rfl

/-- Tokens begin with a marker of the given name. -/
def BeginsMarker (name : String) (ts : List Tree) : Prop :=
  ∃ hash u later, ts = hash :: .leaf u :: later ∧ hash.text = "#" ∧ u.isIdentifier = true ∧
    u.text = name

theorem eatMarker_of_not_beginsMarker (h : ¬ BeginsMarker name c.rest) :
    c.eatMarker name = (false, c) := by
  rw [eatMarker, peek_one, sees, peek_zero]
  rcases hrest : c.rest with - | ⟨hash, - | ⟨⟨t⟩ | _, later⟩⟩
  · rfl
  · rfl
  · refine if_neg fun hcond ↦ h ?_
    simp only [List.head?_cons, Bool.and_eq_true, decide_eq_true_eq] at hcond
    exact ⟨hash, t, later, hrest, hcond.1.1, hcond.1.2, hcond.2⟩
  · rfl

theorem not_beginsMarker_singleton (t : Tree) : ¬ BeginsMarker name [t] := by
  rintro ⟨_, _, _, h, -⟩
  cases h

/-! ## Attributes -/

/-- Tokens begin with an attribute. -/
def BeginsAttribute (ts : List Tree) : Prop :=
  ∃ hash brackets later, ts = hash :: brackets :: later ∧ hash.text = "#" ∧
    brackets.opener? = some "["

/-- Number signs, each with brackets behind it. -/
inductive AreAttributes : List Tree → Prop
  | nil : AreAttributes []
  | cons {hash brackets : Tree} {later : List Tree} (hhash : hash.text = "#")
      (hbrackets : brackets.opener? = some "[") (h : AreAttributes later) :
      AreAttributes (hash :: brackets :: later)

/-- From where the first token begins to where the last one ends. -/
def reach : List Tree → Option (Nat × Nat)
  | [] => none
  | t :: ts => some (t.start, ((t :: ts).getLast (List.cons_ne_nil t ts)).stop)

/-- What attributes reach over if those before them reach over a range. -/
def extend (before found : Option (Nat × Nat)) : Option (Nat × Nat) :=
  found.elim before fun r ↦ some ((before.map Prod.fst).getD r.1, r.2)

theorem extend_extend (before found : Option (Nat × Nat)) (start stop : Nat) :
    extend before (extend (some (start, stop)) found) =
      extend (some ((before.map Prod.fst).getD start, stop)) found := by
  cases found <;> rfl

theorem not_beginsAttribute_of_text_ne (h : t.text ≠ "#") : ¬ BeginsAttribute (t :: ts) := by
  rintro ⟨_, _, _, heq, hhash, -⟩
  obtain ⟨rfl, -⟩ := List.cons.inj heq
  exact h hhash

theorem skipAttributes_of_not_beginsAttribute (h : ¬ BeginsAttribute c.rest) :
    c.skipAttributes = (none, c) := by
  have hrun : attributeRun c.rest = (0, 0) := by
    rcases hrest : c.rest with - | ⟨t, - | ⟨g, ts⟩⟩
    · rfl
    · rfl
    · refine if_neg fun hcond ↦ h ?_
      rw [Bool.and_eq_true, decide_eq_true_eq, decide_eq_true_eq] at hcond
      exact ⟨t, g, ts, hrest, hcond⟩
  rw [skipAttributes, hrun]
  rfl

/-- After an attribute, the attributes behind it are stepped over. -/
theorem skipAttributes_cons {hash brackets : Tree} (h : c.rest = hash :: brackets :: ts)
    (hhash : hash.text = "#") (hbrackets : brackets.opener? = some "[") :
    c.skipAttributes = (extend (some (hash.start, brackets.stop)) (c.advance 2).skipAttributes.1,
      (c.advance 2).skipAttributes.2) := by
  have hlater : (c.advance 2).rest = ts := by rw [rest_advance, h]; rfl
  have hrun : attributeRun c.rest = ((attributeRun ts).1 + 2,
      if (attributeRun ts).1 = 0 then brackets.stop else (attributeRun ts).2) := by
    rw [h, attributeRun, decide_eq_true hhash, decide_eq_true hbrackets]
    rfl
  rw [skipAttributes, skipAttributes, hrun, hlater, offset_of_rest h]
  obtain ⟨n, stop⟩ := attributeRun ts
  cases n with
  | zero => rfl
  | succ n =>
    show (some _, c.advance _) = (some _, (c.advance 2).advance _)
    rw [advance, advance, advance]
    simp [Nat.add_comm, Nat.add_left_comm]

/-- Tokens begin with attributes as far as these go. -/
theorem exists_areAttributes (ts : List Tree) :
    ∃ run later, ts = run ++ later ∧ AreAttributes run ∧ ¬ BeginsAttribute later := by
  by_cases h : BeginsAttribute ts
  · obtain ⟨hash, brackets, rest, rfl, hhash, hbrackets⟩ := h
    obtain ⟨run, later, rfl, hrun, hlater⟩ := exists_areAttributes rest
    exact ⟨hash :: brackets :: run, later, rfl, .cons hhash hbrackets hrun, hlater⟩
  · exact ⟨[], ts, rfl, .nil, h⟩
termination_by ts.length

/-- Attributes that nothing that begins one follows are what is stepped over. -/
theorem skipAttributes_of_append {run : List Tree} (h : c.rest = run ++ ts)
    (hrun : AreAttributes run) (hts : ¬ BeginsAttribute ts) :
    c.skipAttributes = (reach run, c.advance run.length) := by
  induction hrun generalizing c with
  | nil => exact skipAttributes_of_not_beginsAttribute (h ▸ hts)
  | @cons hash brackets later hhash hbrackets _ ih =>
    have hlater : (c.advance 2).rest = later ++ ts := by rw [rest_advance, h]; rfl
    rw [skipAttributes_cons h hhash hbrackets, ih hlater]
    refine Prod.ext ?_ ?_
    · cases later <;> rfl
    · simp [advance, Nat.add_comm, Nat.add_left_comm]

/-- **Attributes are stepped over as far as they go.** -/
theorem exists_attributes (c : Cursor) : ∃ run later, c.rest = run ++ later ∧ AreAttributes run ∧
    ¬ BeginsAttribute later ∧ c.skipAttributes = (reach run, c.advance run.length) := by
  obtain ⟨run, later, hrest, hrun, hlater⟩ := exists_areAttributes c.rest
  exact ⟨run, later, hrest, hrun, hlater, skipAttributes_of_append hrest hrun hlater⟩

theorem rest_advance_length {run : List Tree} (h : c.rest = run ++ ts) :
    (c.advance run.length).rest = ts := by
  rw [rest_advance, h, List.drop_left]

/-- Attributes reach as far as one of the trees at most. -/
theorem attributeRun_le {n : Nat} {ts : List Tree} (h : ∀ t ∈ ts, t.stop ≤ n) :
    (attributeRun ts).2 ≤ n := by
  match ts with
  | [] | [_] => exact Nat.zero_le n
  | t :: g :: rest =>
    rw [List.forall_mem_cons, List.forall_mem_cons] at h
    have hrest := attributeRun_le h.2.2
    rw [attributeRun]
    split
    · dsimp only
      split
      · exact h.2.1
      · exact hrest
    · exact Nat.zero_le n

end Cursor
end Rust
end NodeSchema
