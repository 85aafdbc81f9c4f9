import Mathlib.Data.List.Perm.Basic
import NodeSchema.Proofs.Result

/-!
# Two runs that end alike

Two computations end alike if both fail, or both succeed with results that are related (`Alike`).
Which failure it is does not matter, since failures tell places.  Computations that are put together
of steps that end alike end alike: one step after the other (`Alike.bind`), for each element of
lists (`Alike.mapM`), and for the elements of a list in any order (`alike_mapM_of_perm`).
-/

set_option autoImplicit false

namespace NodeSchema

variable {α β γ δ : Type}

/-- Both computations fail, or both succeed with related results. -/
inductive Alike (R : α → β → Prop) : Except Failure α → Except Failure β → Prop
  | ok {a : α} {b : β} (h : R a b) : Alike R (.ok a) (.ok b)
  | error {e e' : Failure} : Alike R (.error e) (.error e')

namespace Alike

variable {R : α → β → Prop} {x : Except Failure α} {y : Except Failure β}

theorem of_eq {R : α → α → Prop} (hR : ∀ a, R a a) {x y : Except Failure α} (h : x = y) :
    Alike R x y := by
  subst h
  cases x with
  | ok a => exact .ok (hR a)
  | error => exact .error

theorem mono {S : α → β → Prop} (h : Alike R x y) (hRS : ∀ a b, R a b → S a b) : Alike S x y := by
  cases h with
  | ok h => exact .ok (hRS _ _ h)
  | error => exact .error

theorem symm (h : Alike R x y) : Alike (fun b a ↦ R a b) y x := by
  cases h with
  | ok h => exact .ok h
  | error => exact .error

theorem trans {S : β → γ → Prop} {z : Except Failure γ} (h : Alike R x y) (h' : Alike S y z) :
    Alike (fun a c ↦ ∃ b, R a b ∧ S b c) x z := by
  cases h with
  | ok h =>
    cases h' with
    | ok h' => exact .ok ⟨_, h, h'⟩
  | error =>
    cases h' with
    | error => exact .error

/-- What the one computation gives, the other gives up to the relation. -/
theorem exists_of_eq_ok (h : Alike R x y) {a : α} (hx : x = .ok a) : ∃ b, y = .ok b ∧ R a b := by
  cases h with
  | ok h =>
    cases hx
    exact ⟨_, rfl, h⟩
  | error => cases hx

/-- One step after the other, where the second is asked for what the first one gives. -/
theorem bind_of_eq {S : γ → δ → Prop} {f : α → Except Failure γ} {g : β → Except Failure δ}
    (h : Alike R x y) (hfg : ∀ a b, x = .ok a → y = .ok b → R a b → Alike S (f a) (g b)) :
    Alike S (x >>= f) (y >>= g) := by
  cases h with
  | ok h => exact hfg _ _ rfl rfl h
  | error => exact .error

theorem bind {S : γ → δ → Prop} {f : α → Except Failure γ} {g : β → Except Failure δ}
    (h : Alike R x y) (hfg : ∀ a b, R a b → Alike S (f a) (g b)) : Alike S (x >>= f) (y >>= g) :=
  h.bind_of_eq fun a b _ _ ↦ hfg a b

theorem map {S : γ → δ → Prop} {f : α → γ} {g : β → δ} (h : Alike R x y)
    (hfg : ∀ a b, R a b → S (f a) (g b)) : Alike S (x.map f) (y.map g) := by
  cases h with
  | ok h => exact .ok (hfg _ _ h)
  | error => exact .error

/-- Related elements one by one. -/
theorem mapM {S : γ → δ → Prop} {f : α → Except Failure γ} {g : β → Except Failure δ} {as : List α}
    {bs : List β} (h : List.Forall₂ (fun a b ↦ Alike S (f a) (g b)) as bs) :
    Alike (List.Forall₂ S) (as.mapM f) (bs.mapM g) := by
  induction h with
  | nil => exact .ok .nil
  | cons hab _ ih =>
    rw [List.mapM_cons, List.mapM_cons]
    refine hab.bind fun c d hcd ↦ ih.bind fun cs ds hcsds ↦ ?_
    exact .ok (.cons hcd hcsds)

end Alike

/-- **The elements of a list give their results in any order.** -/
theorem alike_mapM_of_perm {f : α → Except Failure β} {as bs : List α} (h : as.Perm bs) :
    Alike List.Perm (as.mapM f) (bs.mapM f) := by
  induction h with
  | nil => exact .ok .nil
  | cons a _ ih =>
    rw [List.mapM_cons, List.mapM_cons]
    refine (Alike.of_eq (R := Eq) (fun _ ↦ rfl) rfl).bind fun b _ hb ↦ ih.bind fun cs ds hperm ↦ ?_
    subst hb
    exact .ok (hperm.cons b)
  | swap a b l =>
    simp only [List.mapM_cons]
    cases f a with
    | error =>
      cases f b with
      | error => exact .error
      | ok => exact .error
    | ok c =>
      cases f b with
      | error => exact .error
      | ok d =>
        cases l.mapM f with
        | error => exact .error
        | ok cs => exact .ok (.swap c d cs)
  | trans _ _ ih ih' =>
    refine (ih.trans ih').mono ?_
    rintro _ _ ⟨_, hperm, hperm'⟩
    exact hperm.trans hperm'

end NodeSchema
