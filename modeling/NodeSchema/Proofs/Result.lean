import Mathlib.Data.List.Forall2
import NodeSchema.Log

/-!
# When a computation succeeds

A computation that is made of steps succeeds iff every step does.  The lemmas here say so for the
ways in which steps are put together: one after the other (`bind_eq_ok`), followed by a function
(`map_eq_ok`), and for each element of a list (`mapM_eq_ok`).

What a computation tells does not change whether it succeeds: `Logged.result` turns the steps of a
computation with events into steps without (`Logged.result_bind`).
-/

set_option autoImplicit false

namespace NodeSchema

variable {α β : Type}

theorem bind_eq_ok {ε : Type} {x : Except ε α} {f : α → Except ε β} {b : β} :
    (x >>= f) = .ok b ↔ ∃ a, x = .ok a ∧ f a = .ok b := by
  constructor
  · intro h
    cases x with
    | error e => cases h
    | ok a => exact ⟨a, rfl, h⟩
  · rintro ⟨a, rfl, h⟩
    exact h

theorem bind_eq_error {ε : Type} {x : Except ε α} {f : α → Except ε β} {e : ε} :
    (x >>= f) = .error e ↔ x = .error e ∨ ∃ a, x = .ok a ∧ f a = .error e := by
  constructor
  · intro h
    cases x with
    | error e' => exact .inl (congrArg Except.error (Except.error.inj h))
    | ok a => exact .inr ⟨a, rfl, h⟩
  · rintro (rfl | ⟨a, rfl, h⟩)
    · rfl
    · exact h

theorem map_eq_ok {ε : Type} {x : Except ε α} {f : α → β} {b : β} :
    x.map f = .ok b ↔ ∃ a, x = .ok a ∧ f a = b := by
  constructor
  · intro h
    cases x with
    | error e => cases h
    | ok a => exact ⟨a, rfl, Except.ok.inj h⟩
  · rintro ⟨a, rfl, rfl⟩
    rfl

theorem map_eq_error {ε : Type} {x : Except ε α} {f : α → β} {e : ε} :
    x.map f = .error e ↔ x = .error e := by
  cases x with
  | error e' => exact ⟨fun h ↦ congrArg _ (Except.error.inj h),
      fun h ↦ congrArg _ (Except.error.inj h)⟩
  | ok a => exact ⟨fun h ↦ (by cases h), fun h ↦ (by cases h)⟩

/-- Each element gives its result in turn. -/
theorem mapM_eq_ok {f : α → Except Failure β} {as : List α} {bs : List β} :
    as.mapM f = .ok bs ↔ List.Forall₂ (fun a b ↦ f a = .ok b) as bs := by
  induction as generalizing bs with
  | nil =>
    rw [List.forall₂_nil_left_iff]
    exact ⟨fun h ↦ (Except.ok.inj h).symm, fun h ↦ congrArg Except.ok h.symm⟩
  | cons a as ih =>
    rw [List.mapM_cons, bind_eq_ok, List.forall₂_cons_left_iff]
    refine exists_congr fun b ↦ ?_
    rw [bind_eq_ok]
    constructor
    · rintro ⟨hb, cs, hcs, h⟩
      exact ⟨cs, hb, ih.mp hcs, (Except.ok.inj h).symm⟩
    · rintro ⟨cs, hb, hcs, rfl⟩
      exact ⟨hb, cs, ih.mpr hcs, rfl⟩

/-- The first element that gives no result tells the failure. -/
theorem mapM_eq_error {f : α → Except Failure β} {as : List α} {e : Failure} :
    as.mapM f = .error e ↔ ∃ before a after, as = before ++ a :: after ∧
      (∃ bs, before.mapM f = .ok bs) ∧ f a = .error e := by
  induction as with
  | nil =>
    constructor
    · intro h
      cases h
    · rintro ⟨before, a, after, h, -⟩
      exact absurd h.symm (List.append_ne_nil_of_right_ne_nil before (List.cons_ne_nil a after))
  | cons x xs ih =>
    rw [List.mapM_cons, bind_eq_error]
    constructor
    · rintro (hx | ⟨y, hy, h⟩)
      · exact ⟨[], x, xs, rfl, ⟨[], rfl⟩, hx⟩
      · rcases bind_eq_error.mp h with hxs | ⟨ys, -, h⟩
        · obtain ⟨before, a, after, rfl, ⟨bs, hbs⟩, ha⟩ := ih.mp hxs
          refine ⟨x :: before, a, after, rfl, ⟨y :: bs, ?_⟩, ha⟩
          rw [List.mapM_cons, hy, hbs]
          rfl
        · cases h
    · rintro ⟨before, a, after, heq, ⟨bs, hbs⟩, ha⟩
      cases before with
      | nil =>
        obtain ⟨rfl, rfl⟩ := List.cons.inj heq
        exact .inl ha
      | cons b before =>
        obtain ⟨rfl, rfl⟩ := List.cons.inj heq
        rw [List.mapM_cons, bind_eq_ok] at hbs
        obtain ⟨y, hy, hbs⟩ := hbs
        obtain ⟨ys, hys, -⟩ := bind_eq_ok.mp hbs
        refine .inr ⟨y, hy, bind_eq_error.mpr (.inl ?_)⟩
        exact ih.mpr ⟨before, a, after, rfl, ⟨ys, hys⟩, ha⟩

/-- Elements that all give a result give a list of results. -/
theorem exists_mapM_eq_ok {f : α → Except Failure β} {as : List α}
    (h : ∀ a ∈ as, ∃ b, f a = .ok b) : ∃ bs, as.mapM f = .ok bs := by
  simp only [mapM_eq_ok]
  induction as with
  | nil => exact ⟨[], .nil⟩
  | cons a as ih =>
    obtain ⟨⟨b, hb⟩, has⟩ := List.forall_mem_cons.mp h
    obtain ⟨bs, hbs⟩ := ih has
    exact ⟨b :: bs, .cons hb hbs⟩

/-- Each result comes from an element. -/
theorem exists_of_mem_right {R : α → β → Prop} {as : List α} {bs : List β}
    (h : List.Forall₂ R as bs) {b : β} (hb : b ∈ bs) : ∃ a ∈ as, R a b := by
  obtain ⟨i, hi, rfl⟩ := List.getElem_of_mem hb
  have hlength : i < as.length := h.length_eq ▸ hi
  exact ⟨as[i], List.getElem_mem hlength, h.get hlength hi⟩

/-- In any monad, elements that all give their result give the list of the results. -/
theorem mapM_eq_pure {m : Type → Type} [Monad m] [LawfulMonad m] {f : α → m β} {g : α → β}
    {as : List α} (h : ∀ a ∈ as, f a = pure (g a)) : as.mapM f = pure (as.map g) := by
  induction as with
  | nil => rfl
  | cons a as ih =>
    rw [List.forall_mem_cons] at h
    rw [List.mapM_cons, h.1, pure_bind, ih h.2, pure_bind, List.map_cons]

namespace Logged

theorem result_bind (x : Logged α) (f : α → Logged β) :
    (x >>= f).result = x.result >>= fun a ↦ (f a).result := by
  show (x.andThen f).result = _
  rw [andThen]
  split
  · next a ha => rw [ha]; rfl
  · next e he => rw [he]; rfl

@[simp] theorem result_pure (a : α) : (pure a : Logged α).result = .ok a := rfl

@[simp] theorem result_ofExcept (r : Except Failure α) : (ofExcept r).result = r := rfl

@[simp] theorem result_tell (e : Event) : (tell e).result = .ok () := rfl

/-- Steps with events succeed one after the other. -/
theorem result_bind_eq_ok {x : Logged α} {f : α → Logged β} {b : β} :
    (x >>= f).result = .ok b ↔ ∃ a, x.result = .ok a ∧ (f a).result = .ok b := by
  rw [result_bind, bind_eq_ok]

theorem ofExcept_ok_bind (a : α) (f : α → Logged β) : (ofExcept (.ok a) >>= f) = f a := rfl

theorem ofExcept_error_bind (e : Failure) (f : α → Logged β) :
    (ofExcept (.error e) >>= f) = .fail e := rfl

end Logged
end NodeSchema
