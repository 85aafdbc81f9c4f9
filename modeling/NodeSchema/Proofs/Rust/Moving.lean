import Mathlib.Order.Basic
import NodeSchema.Proofs.Rust.Cursor
import NodeSchema.Proofs.Rust.Place

/-!
# How a cursor moves

A reader holds one cursor, moves it as it goes, and goes on with it after a failure.  `Moving` says
this step by step: what fails leaves the cursor where it has come to, so that a reader that moves
first and looks then would be seen.  None does (`run_perform`): the operations of `Cursor.apply` are
the same.

* `Moves` — what one operation does to the index, by the tokens ahead;
* `moves_apply` — every operation does that, and stays among the tokens;
* `exists_advance_of_afterAll` — so the index only grows, whatever fails in between;
* `StandsIn` — the cursor stands at a token of its group or at the closing delimiter;
* `afterAll_moves` — all of this after any operations.
-/

set_option autoImplicit false

namespace NodeSchema
namespace Rust
namespace Cursor

/-! ## Moving a cursor in place -/

/-- A computation that moves a cursor.  If it fails, the cursor stays where it has come to. -/
abbrev Moving (α : Type) := ExceptT Failure (StateM Cursor) α

/-- An attribute is ahead. -/
def seesAttribute (c : Cursor) : Bool :=
  c.sees "#" 0 && (c.peek 1).bind Tree.opener? = some "["

namespace Moving

/-- Complains about where the cursor stands. -/
def fail {α : Type} (complaint : Complaint) : Moving α := do
  let c ← get
  throw (c.source.complain c.offset complaint)

/-- Takes the next token. -/
def next : Moving Tree := do
  match (← get).peek 0 with
  | some t =>
    modify (·.advance 1)
    return t
  | none => fail .unexpectedEnd

/-- Steps over the next token if it has the given text. -/
def eat (text : String) : Moving Bool := do
  if (← get).sees text 0 then
    modify (·.advance 1)
    return true
  else return false

/-- Takes the next token after a look at its text. -/
def expect (text : String) : Moving Tree := do
  if (← get).sees text 0 then next else fail (.expected text)

/-- Takes the next token, which must be an identifier. -/
def expectIdentifier : Moving String := do
  match (← get).peek 0 with
  | some (.leaf t) =>
    if t.isIdentifier then
      modify (·.advance 1)
      return t.text
    else fail .expectedIdentifier
  | _ => fail .expectedIdentifier

/-- Takes the next token, which must be a group with the given delimiter. -/
def expectGroup (opener : String) : Moving Tree := do
  match (← get).peek 0 with
  | some t =>
    if t.opener? = some opener then
      modify (·.advance 1)
      return t
    else fail (.expected opener)
  | none => fail (.expected opener)

/-- No token may be left. -/
def expectEnd : Moving Unit := do
  if (← get).atEnd then return () else fail .unexpectedToken

/-- Takes both tokens of an attribute as long as one is ahead; `range` is what the attributes before
reach over. -/
def skipAttributesFrom : Nat → Option (Nat × Nat) → Moving (Option (Nat × Nat))
  | 0, range => return range
  | fuel + 1, range => do
    if (← get).seesAttribute then
      let hash ← next
      let brackets ← next
      skipAttributesFrom fuel (some ((range.map Prod.fst).getD hash.start, brackets.stop))
    else return range

/-- Steps over outer attributes; there cannot be more of them than tokens. -/
def skipAttributes : Moving (Option (Nat × Nat)) := do
  skipAttributesFrom (← get).rest.length none

/-- Steps over a number sign and the given identifier after it. -/
def eatMarker (name : String) : Moving Bool := do
  let c ← get
  match c.peek 1 with
  | some (.leaf t) =>
    if c.sees "#" 0 && t.isIdentifier && t.text = name then
      modify (·.advance 2)
      return true
    else return false
  | _ => return false

/-- Carries out an operation. -/
def perform : Operation → Moving Answer
  | .peek n => do
    match (← get).peek n with
    | some t => return .token t
    | none => return .nothing
  | .sees text n => return .truth ((← get).sees text n)
  | .atEnd => return .truth (← get).atEnd
  | .next => .token <$> next
  | .eat text => .truth <$> eat text
  | .expect text => .token <$> expect text
  | .expectIdentifier => .text <$> expectIdentifier
  | .expectGroup opener => .token <$> expectGroup opener
  | .expectEnd => (fun _ ↦ .nothing) <$> expectEnd
  | .skipAttributes => do
    match ← skipAttributes with
    | some (start, stop) => return .range start stop
    | none => return .nothing
  | .eatMarker name => .truth <$> eatMarker name

/-- What a computation gives, and where it leaves the cursor. -/
def run {α : Type} (m : Moving α) (c : Cursor) : Except Failure α × Cursor :=
  StateT.run (ExceptT.run m) c

end Moving

/-- The cursor after operations, one after the other; those that fail are passed over. -/
def performAll (c : Cursor) (ops : List Operation) : Cursor :=
  ops.foldl (fun c op ↦ ((Moving.perform op).run c).2) c

/-! ## The same operations -/

/-- What an operation that keeps its failures apart gives, and where it leaves the cursor. -/
def outcome {α : Type} (c : Cursor) : Except Failure (α × Cursor) → Except Failure α × Cursor
  | .ok (a, c') => (.ok a, c')
  | .error f => (.error f, c)

section

variable (c : Cursor)

theorem seesAttribute_iff : c.seesAttribute = true ↔ BeginsAttribute c.rest := by
  rw [seesAttribute, sees, peek_zero, peek_one, BeginsAttribute]
  rcases c.rest with - | ⟨t, - | ⟨g, ts⟩⟩ <;> simp [and_assoc]

end

namespace Moving

variable {α β : Type} (c : Cursor)

@[simp] theorem run_pure (a : α) : (pure a : Moving α).run c = (.ok a, c) := rfl

@[simp] theorem run_bind (m : Moving α) (f : α → Moving β) : (m >>= f).run c =
    match m.run c with
    | (.ok a, c') => (f a).run c'
    | (.error e, c') => (.error e, c') := by
  have hcont : (m >>= f).run c = StateT.run (ExceptT.bindCont f (m.run c).1) (m.run c).2 := rfl
  rw [hcont]
  obtain ⟨_ | _, _⟩ := m.run c <;> rfl

@[simp] theorem run_map (f : α → β) (m : Moving α) : (f <$> m).run c =
    match m.run c with
    | (.ok a, c') => (.ok (f a), c')
    | (.error e, c') => (.error e, c') := by
  rw [map_eq_pure_bind, run_bind]
  rfl

@[simp] theorem run_get : (get : Moving Cursor).run c = (.ok c, c) := rfl

@[simp] theorem run_advance (n : Nat) :
    (modify (·.advance n) : Moving PUnit).run c = (.ok ⟨⟩, c.advance n) := rfl

@[simp] theorem run_fail (complaint : Complaint) :
    (fail complaint : Moving α).run c = outcome c (c.fail complaint) := rfl

@[simp] theorem run_next : next.run c = outcome c c.next := by
  simp only [next, Cursor.next, run_bind, run_get]
  cases c.peek 0 <;> simp [outcome]

theorem run_eat (text : String) : (eat text).run c = (.ok (c.eat text).1, (c.eat text).2) := by
  simp only [eat, Cursor.eat, run_bind, run_get]
  split <;> simp

theorem run_expect (text : String) : (expect text).run c = outcome c (c.expect text) := by
  simp only [expect, Cursor.expect, run_bind, run_get]
  split <;> simp

theorem run_expectIdentifier : expectIdentifier.run c = outcome c c.expectIdentifier := by
  simp only [expectIdentifier, Cursor.expectIdentifier, run_bind, run_get]
  generalize c.peek 0 = ahead
  rcases ahead with - | ⟨t⟩ | _
  · simp
  · dsimp only
    split <;> simp [outcome]
  · simp

theorem run_expectGroup (opener : String) :
    (expectGroup opener).run c = outcome c (c.expectGroup opener) := by
  simp only [expectGroup, Cursor.expectGroup, run_bind, run_get]
  generalize c.peek 0 = ahead
  cases ahead with
  | none => simp
  | some t =>
    dsimp only
    split <;> simp [outcome]

theorem run_expectEnd :
    expectEnd.run c = outcome c (c.expectEnd.map fun u ↦ (u, c)) := by
  simp only [expectEnd, Cursor.expectEnd, run_bind, run_get]
  split <;> rfl

theorem run_eatMarker (name : String) :
    (eatMarker name).run c = (.ok (c.eatMarker name).1, (c.eatMarker name).2) := by
  simp only [eatMarker, Cursor.eatMarker, run_bind, run_get]
  generalize c.peek 1 = ahead
  rcases ahead with - | ⟨t⟩ | _
  · simp
  · dsimp only
    split <;> simp
  · simp

/-- The loop over attributes, by the attributes that are left. -/
theorem run_skipAttributesFrom (fuel : Nat) (range : Option (Nat × Nat))
    (hfuel : c.rest.length ≤ fuel) : (skipAttributesFrom fuel range).run c =
      (.ok (extend range c.skipAttributes.1), c.skipAttributes.2) := by
  -- The fuel lasts, since every round takes two tokens; `range` is what the rounds before gave.
  induction fuel generalizing c range with
  | zero =>
    have hnil : ¬ BeginsAttribute c.rest := by
      rw [List.eq_nil_of_length_eq_zero (Nat.le_zero.mp hfuel)]
      exact fun ⟨_, _, _, h, _⟩ ↦ by cases h
    rw [skipAttributes_of_not_beginsAttribute hnil]
    rfl
  | succ fuel ih =>
    simp only [skipAttributesFrom, run_bind, run_get]
    by_cases hsees : c.seesAttribute = true
    · obtain ⟨hash, brackets, later, hrest, hhash, hbrackets⟩ := (seesAttribute_iff c).mp hsees
      have hone : (c.advance 1).rest = brackets :: later := rest_advance_one hrest
      have htwo : ((c.advance 1).advance 1).rest = later := rest_advance_one hone
      have hfirst : c.next = .ok (hash, c.advance 1) := by
        rw [Cursor.next, peek_zero, hrest]
        rfl
      have hsecond : (c.advance 1).next = .ok (brackets, c.advance 2) := by
        rw [Cursor.next, peek_zero, hone]
        rfl
      have hlater : (c.advance 2).rest.length ≤ fuel := by
        have : (c.advance 2).rest = later := htwo
        rw [hrest] at hfuel
        rw [this]
        simp only [List.length_cons] at hfuel
        omega
      rw [if_pos hsees, skipAttributes_cons hrest hhash hbrackets, extend_extend,
        ← ih _ _ hlater]
      simp [hfirst, hsecond, outcome]
    · rw [if_neg hsees,
        skipAttributes_of_not_beginsAttribute (mt (seesAttribute_iff c).mpr hsees)]
      rfl

theorem run_skipAttributes :
    skipAttributes.run c = (.ok c.skipAttributes.1, c.skipAttributes.2) := by
  rw [skipAttributes, run_bind, run_get]
  refine (run_skipAttributesFrom c _ none (Nat.le_refl _)).trans ?_
  cases c.skipAttributes.1 <;> rfl

/-- **A failing operation has not moved.**  What is carried out step by step gives what
`Cursor.apply` gives, and leaves the cursor where a failure finds it. -/
theorem run_perform (op : Operation) : (perform op).run c = outcome c (c.apply op) := by
  cases op with
  | peek n =>
    simp only [perform, apply, run_bind, run_get]
    cases c.peek n <;> rfl
  | sees text n => rfl
  | atEnd => rfl
  | next =>
    simp only [perform, apply, run_map, run_next]
    cases c.next <;> rfl
  | eat text =>
    simp only [perform, apply, run_map, run_eat]
    rfl
  | expect text =>
    simp only [perform, apply, run_map, run_expect]
    cases c.expect text <;> rfl
  | expectIdentifier =>
    simp only [perform, apply, run_map, run_expectIdentifier]
    cases c.expectIdentifier <;> rfl
  | expectGroup opener =>
    simp only [perform, apply, run_map, run_expectGroup]
    cases c.expectGroup opener <;> rfl
  | expectEnd =>
    simp only [perform, apply, run_map, run_expectEnd]
    cases c.expectEnd <;> rfl
  | skipAttributes =>
    simp only [perform, apply, run_bind, run_skipAttributes]
    rcases c.skipAttributes with ⟨- | ⟨start, stop⟩, c'⟩ <;> rfl
  | eatMarker name =>
    simp only [perform, apply, run_map, run_eatMarker]
    rfl

end Moving

/-! ## What one operation does -/

/-- A failure, nothing, or a "no". -/
def Refuses : Except Failure Answer → Prop
  | .error _ | .ok .nothing | .ok (.truth false) => True
  | .ok _ => False

/-- How many tokens an operation takes unless it refuses.  Attributes may be any number. -/
def Operation.width : Operation → Option Nat
  | .peek _ | .sees _ _ | .atEnd | .expectEnd => some 0
  | .next | .eat _ | .expect _ | .expectIdentifier | .expectGroup _ => some 1
  | .eatMarker _ => some 2
  | .skipAttributes => none

/-- Tokens begin with what an operation takes. -/
def Operation.Finds (ts : List Tree) : Operation → Prop
  | .peek _ | .sees _ _ | .atEnd | .expectEnd => False
  | .next => ts ≠ []
  | .eat text | .expect text => ∃ t later, ts = t :: later ∧ t.text = text
  | .expectIdentifier => ∃ t later, ts = .leaf t :: later ∧ t.isIdentifier = true
  | .expectGroup opener => ∃ t later, ts = t :: later ∧ t.opener? = some opener
  | .skipAttributes => BeginsAttribute ts
  | .eatMarker name => BeginsMarker name ts

/-- How an operation with an answer moves a cursor. -/
structure Moves (c : Cursor) (op : Operation) (r : Except Failure Answer) (c' : Cursor) : Prop where
  index_le : c.index ≤ c'.index
  le_length : c'.index ≤ c.tokens.length
  /-- The group stays the same. -/
  eq_advance : c' = c.advance (c'.index - c.index)
  eq_of_refuses : Refuses r → c' = c
  eq_of_width : ¬ Refuses r → ∀ n, op.width = some n → c'.index = c.index + n
  moved_iff : c.index < c'.index ↔ op.Finds c.rest
  attributes : op = .skipAttributes → ∃ run later, c.rest = run ++ later ∧ AreAttributes run ∧
    ¬ BeginsAttribute later ∧ c'.index = c.index + run.length ∧
      r = .ok ((reach run).elim .nothing fun s ↦ .range s.1 s.2)

section

variable {c : Cursor} {op : Operation} {r : Except Failure Answer}

/-- An operation that does not find what it takes. -/
theorem Moves.stay {n : Nat} (hc : c.index ≤ c.tokens.length) (hwidth : op.width = some n)
    (hfinds : ¬ op.Finds c.rest) (hr : Refuses r ∨ n = 0) : Moves c op r c where
  index_le := Nat.le_refl _
  le_length := hc
  eq_advance := by rw [Nat.sub_self]; rfl
  eq_of_refuses _ := rfl
  eq_of_width hnot m hm := by
    rw [← Option.some.inj (hwidth.symm.trans hm), hr.resolve_left hnot]
    rfl
  moved_iff := ⟨fun h ↦ absurd h (Nat.lt_irrefl _), fun h ↦ absurd h hfinds⟩
  attributes h := by
    rw [h] at hwidth
    cases hwidth

/-- An operation that takes what it finds. -/
theorem Moves.take {n : Nat} (hn : 0 < n) (hlength : n ≤ c.rest.length) (hfinds : op.Finds c.rest)
    (hr : ¬ Refuses r) (hwidth : op.width = some n) : Moves c op r (c.advance n) where
  index_le := Nat.le_add_right _ _
  le_length := by
    rw [length_rest] at hlength
    show c.index + n ≤ _
    omega
  eq_advance := by
    show _ = c.advance (c.index + n - c.index)
    rw [Nat.add_sub_cancel_left]
  eq_of_refuses h := absurd h hr
  eq_of_width _ m hm := by
    rw [← Option.some.inj (hwidth.symm.trans hm)]
    rfl
  moved_iff := ⟨fun _ ↦ hfinds, fun _ ↦ Nat.lt_add_of_pos_right hn⟩
  attributes h := by
    rw [h] at hwidth
    cases hwidth

theorem one_le_of_rest {t : Tree} {later : List Tree} (h : c.rest = t :: later) :
    1 ≤ c.rest.length := by
  rw [h]
  exact Nat.succ_pos _

end

section Among

variable {c : Cursor} (hc : c.index ≤ c.tokens.length)
include hc

theorem moves_next : Moves c .next (outcome c (c.apply .next)).1 (outcome c (c.apply .next)).2 := by
  rw [apply, next, peek_zero]
  cases hrest : c.rest with
  | nil => exact .stay hc rfl (fun h ↦ h hrest) (.inl trivial)
  | cons t ts =>
    have hfinds : Operation.Finds c.rest .next := hrest ▸ List.cons_ne_nil t ts
    exact .take Nat.one_pos (one_le_of_rest hrest) hfinds id rfl

theorem moves_eat (text : String) : Moves c (.eat text) (outcome c (c.apply (.eat text))).1
    (outcome c (c.apply (.eat text))).2 := by
  rw [apply, eat]
  by_cases hsees : c.sees text 0 = true
  · obtain ⟨t, ts, hrest, -⟩ := sees_zero_iff.mp hsees
    rw [if_pos hsees]
    exact .take Nat.one_pos (one_le_of_rest hrest) (sees_zero_iff.mp hsees) id rfl
  · rw [if_neg hsees]
    exact .stay hc rfl (mt sees_zero_iff.mpr hsees) (.inl trivial)

theorem moves_expect (text : String) : Moves c (.expect text) (outcome c (c.apply (.expect text))).1
    (outcome c (c.apply (.expect text))).2 := by
  rw [apply, expect]
  by_cases hsees : c.sees text 0 = true
  · obtain ⟨t, ts, hrest, -⟩ := sees_zero_iff.mp hsees
    rw [if_pos hsees, next, peek_zero, hrest]
    exact .take Nat.one_pos (one_le_of_rest hrest) (sees_zero_iff.mp hsees) id rfl
  · rw [if_neg hsees]
    exact .stay hc rfl (mt sees_zero_iff.mpr hsees) (.inl trivial)

theorem moves_expectIdentifier : Moves c .expectIdentifier
    (outcome c (c.apply .expectIdentifier)).1 (outcome c (c.apply .expectIdentifier)).2 := by
  have hstay (h : ¬ Operation.Finds c.rest .expectIdentifier) :
      Moves c .expectIdentifier (.error (c.source.complain c.offset .expectedIdentifier)) c :=
    .stay hc rfl h (.inl trivial)
  rw [apply, expectIdentifier, peek_zero]
  rcases hrest : c.rest with - | ⟨⟨t⟩ | _, ts⟩
  · refine hstay ?_
    rintro ⟨t, later, h, -⟩
    cases hrest.symm.trans h
  · rw [List.head?_cons]
    by_cases hident : t.isIdentifier = true
    · simp only [if_pos hident]
      exact .take Nat.one_pos (one_le_of_rest hrest) ⟨t, ts, hrest, hident⟩ id rfl
    · simp only [if_neg hident]
      refine hstay ?_
      rintro ⟨u, later, h, hu⟩
      obtain ⟨⟨rfl⟩, -⟩ := List.cons.inj (hrest.symm.trans h)
      exact hident hu
  · refine hstay ?_
    rintro ⟨t, later, h, -⟩
    cases hrest.symm.trans h

theorem moves_expectGroup (opener : String) : Moves c (.expectGroup opener)
    (outcome c (c.apply (.expectGroup opener))).1
    (outcome c (c.apply (.expectGroup opener))).2 := by
  have hstay (h : ¬ Operation.Finds c.rest (.expectGroup opener)) :
      Moves c (.expectGroup opener) (.error (c.source.complain c.offset (.expected opener))) c :=
    .stay hc rfl h (.inl trivial)
  rw [apply, expectGroup, peek_zero]
  cases hrest : c.rest with
  | nil =>
    refine hstay ?_
    rintro ⟨t, later, h, -⟩
    cases hrest.symm.trans h
  | cons t ts =>
    rw [List.head?_cons]
    by_cases hopener : t.opener? = some opener
    · simp only [if_pos hopener]
      exact .take Nat.one_pos (one_le_of_rest hrest) ⟨t, ts, hrest, hopener⟩ id rfl
    · simp only [if_neg hopener]
      refine hstay ?_
      rintro ⟨u, later, h, hu⟩
      obtain ⟨rfl, -⟩ := List.cons.inj (hrest.symm.trans h)
      exact hopener hu

theorem moves_skipAttributes : Moves c .skipAttributes
    (outcome c (c.apply .skipAttributes)).1 (outcome c (c.apply .skipAttributes)).2 := by
  obtain ⟨run, later, hrest, hrun, hlater, hskip⟩ := exists_attributes c
  have happly : c.apply .skipAttributes =
      .ok ((reach run).elim .nothing fun s ↦ .range s.1 s.2, c.advance run.length) := by
    rw [apply, hskip]
    cases run <;> rfl
  have hlength : run.length ≤ c.tokens.length - c.index := by
    rw [← length_rest, hrest, List.length_append]
    exact Nat.le_add_right _ _
  rw [happly]
  refine ⟨Nat.le_add_right _ _, ?_, ?_, ?_, fun _ _ hn ↦ (by cases hn), ?_, fun _ ↦
    ⟨run, later, hrest, hrun, hlater, rfl, rfl⟩⟩
  · show c.index + run.length ≤ _
    omega
  · show c.advance _ = c.advance (c.index + run.length - c.index)
    rw [Nat.add_sub_cancel_left]
  · intro h
    cases hrun with
    | nil => rfl
    | cons => exact h.elim
  · show c.index < c.index + run.length ↔ BeginsAttribute c.rest
    rw [hrest]
    cases hrun with
    | nil => exact ⟨fun h ↦ absurd h (Nat.lt_irrefl _), fun h ↦ absurd h hlater⟩
    | cons hhash hbrackets =>
      exact ⟨fun _ ↦ ⟨_, _, _, rfl, hhash, hbrackets⟩,
        fun _ ↦ Nat.lt_add_of_pos_right (Nat.succ_pos _)⟩

theorem moves_eatMarker (name : String) : Moves c (.eatMarker name)
    (outcome c (c.apply (.eatMarker name))).1 (outcome c (c.apply (.eatMarker name))).2 := by
  rw [apply]
  by_cases hfinds : Operation.Finds c.rest (.eatMarker name)
  · obtain ⟨hash, t, later, hrest, hhash, hident, rfl⟩ := id hfinds
    rw [eatMarker_of_marker hrest hhash hident]
    refine .take Nat.two_pos ?_ hfinds id rfl
    rw [hrest]
    exact Nat.le_add_left 2 _
  · rw [eatMarker_of_not_beginsMarker hfinds]
    exact .stay hc rfl hfinds (.inl trivial)

/-- **What one operation does to the index.** -/
theorem moves_apply (op : Operation) :
    Moves c op (outcome c (c.apply op)).1 (outcome c (c.apply op)).2 := by
  cases op with
  | peek n =>
    rw [apply]
    cases c.peek n <;> exact .stay hc rfl id (.inr rfl)
  | sees text n => exact .stay hc rfl id (.inr rfl)
  | atEnd => exact .stay hc rfl id (.inr rfl)
  | expectEnd =>
    rw [apply]
    cases c.expectEnd <;> exact .stay hc rfl id (.inl trivial)
  | next => exact moves_next hc
  | eat text => exact moves_eat hc text
  | expect text => exact moves_expect hc text
  | expectIdentifier => exact moves_expectIdentifier hc
  | expectGroup opener => exact moves_expectGroup hc opener
  | skipAttributes => exact moves_skipAttributes hc
  | eatMarker name => exact moves_eatMarker hc name

/-! ## What operations do one after the other -/

omit hc in
theorem after_eq_outcome (op : Operation) : c.after op = (outcome c (c.apply op)).2 := by
  rw [after]
  cases c.apply op <;> rfl

/-- The cursor goes on in its group, and stays in it. -/
theorem exists_advance_of_afterAll (ops : List Operation) :
    ∃ n, c.afterAll ops = c.advance n ∧ c.index + n ≤ c.tokens.length := by
  induction ops generalizing c with
  | nil => exact ⟨0, rfl, hc⟩
  | cons op ops ih =>
    have hop := moves_apply hc op
    rw [← after_eq_outcome] at hop
    show ∃ n, (c.after op).afterAll ops = _ ∧ _
    generalize c.after op = c' at hop ⊢
    obtain ⟨m, hm⟩ : ∃ m, c' = c.advance m := ⟨_, hop.eq_advance⟩
    subst hm
    obtain ⟨n, hn, hle⟩ := ih hop.le_length
    refine ⟨m + n, hn.trans ?_, (Nat.add_assoc ..).symm.trans_le hle⟩
    rw [advance, advance, advance, Nat.add_assoc]

omit hc in
/-- What fails need not be put back. -/
theorem performAll_eq_afterAll (ops : List Operation) : performAll c ops = c.afterAll ops := by
  induction ops generalizing c with
  | nil => rfl
  | cons op ops ih =>
    have hafter : ((Moving.perform op).run c).2 = c.after op := by
      rw [Moving.run_perform, after_eq_outcome]
    exact (congrArg (performAll · ops) hafter).trans ih

end Among

/-! ## Where a cursor stands -/

section Group

variable {source : Source} {o close : Token} {body : List Tree} {c : Cursor}

/-- The cursor stands among the tokens of a group: at one of them, strictly between the delimiters,
or behind them all at the closing one. -/
structure StandsIn (source : Source) (o : Token) (body : List Tree) (close : Token) (c : Cursor) :
    Prop where
  source_eq : c.source = source
  tokens : c.tokens = body
  index_le : c.index ≤ c.tokens.length
  offset : (c.atEnd = true ∧ c.offset = close.start) ∨
    (c.atEnd = false ∧ o.stop ≤ c.offset ∧ c.offset < close.start)

theorem standsIn_advance (source : Source) (h : Tree.IsDelimited o body close) {n : Nat}
    (hn : n ≤ body.length) :
    ((ofGroup source (.group o body close)).advance n).StandsIn source o body close := by
  have hclose : close.stop - 1 = close.start := by rw [h.stop_eq]; rfl
  obtain ⟨c, hc⟩ : ∃ c, (ofGroup source (.group o body close)).advance n = c := ⟨_, rfl⟩
  have htokens : c.tokens = body := by rw [← hc]; rfl
  have hindex : c.index = n := by rw [← hc]; exact Nat.zero_add n
  rw [hc]
  refine ⟨by rw [← hc]; rfl, htokens, by rw [htokens, hindex]; exact hn, ?_⟩
  cases hrest : c.rest with
  | nil =>
    refine .inl ⟨rest_eq_nil_iff.mp hrest, ?_⟩
    rw [offset, peek_zero, hrest, ← hclose, ← hc]
    rfl
  | cons t later =>
    have hmem : t ∈ body := by
      rw [← htokens]
      exact List.mem_of_mem_drop (hrest ▸ List.mem_cons_self : t ∈ c.rest)
    rw [offset_of_rest hrest]
    exact .inr ⟨atEnd_of_rest hrest, (h.body t hmem).start_mem⟩

/-- **The moves of a cursor.**  A cursor of a group, after any operations some of which may have
failed, stands among the tokens of the group.  What it does next moves it as `Moves` says, and it
never goes back.  Nothing is put back after a failure: a cursor that is moved in place is moved in
the same way. -/
theorem afterAll_moves (h : Tree.IsDelimited o body close) (ops : List Operation)
    (hc : (ofGroup source (.group o body close)).afterAll ops = c) :
    performAll (ofGroup source (.group o body close)) ops = c ∧
      c.StandsIn source o body close ∧
        (∀ op, (Moving.perform op).run c = outcome c (c.apply op) ∧
          Moves c op (outcome c (c.apply op)).1 (outcome c (c.apply op)).2) ∧
          ∀ more, c.index ≤ (c.afterAll more).index := by
  obtain ⟨n, hn, hle⟩ := exists_advance_of_afterAll
    (c := ofGroup source (.group o body close)) (Nat.zero_le _) ops
  have hstands := standsIn_advance source h ((Nat.zero_add n).symm.trans_le hle)
  rw [← hn, hc] at hstands
  refine ⟨(performAll_eq_afterAll ops).trans hc, hstands, fun op ↦
    ⟨Moving.run_perform c op, moves_apply hstands.index_le op⟩, fun more ↦ ?_⟩
  obtain ⟨m, hm, -⟩ := exists_advance_of_afterAll hstands.index_le more
  rw [hm]
  exact Nat.le_add_right _ _

end Group

/-- A group with an attribute before what it declares. -/
def marked : Source := .ofString "lib.rs" "m!( #[a] pub #full B )"

theorem afterAll_moves_marked : ∃ o body close c, Tree.IsDelimited o body close ∧
    (ofGroup marked (.group o body close)).afterAll
      [.skipAttributes, .expect "enum", .expect "pub", .eatMarker "full"] = c ∧
      c.index = 5 ∧ c.StandsIn marked o body close ∧
        (∀ op, (Moving.perform op).run c = outcome c (c.apply op) ∧
          Moves c op (outcome c (c.apply op)).1 (outcome c (c.apply op)).2) ∧
          ∀ more, c.index ≤ (c.afterAll more).index := by
  have hcall : ((trees? marked.bytes).bind (·[2]?)).map (fun g ↦ (g.opener?,
      ((ofGroup marked g.joined).afterAll
        [.skipAttributes, .expect "enum", .expect "pub", .eatMarker "full"]).index)) =
      some (some "(", 5) := by
    decide +kernel
  obtain ⟨g, hg, hd⟩ := Option.map_eq_some_iff.mp hcall
  obtain ⟨ts, hts, hmem⟩ := Option.bind_eq_some_iff.mp hg
  obtain ⟨hopener, hindex⟩ := Prod.mk.inj hd
  cases g with
  | leaf => cases hopener
  | group o body close =>
    have hgroup : Tree.IsDelimited o (Tree.joinedAfter 0 body) close :=
      Tree.Within.isDelimited hts (.here (List.mem_of_getElem? hmem))
    rw [Tree.joined] at hindex
    exact ⟨o, _, close, _, hgroup, rfl, hindex, (afterAll_moves hgroup _ rfl).2⟩

end Cursor
end Rust
end NodeSchema
