import NodeSchema.Proofs.Rust.Unplaced
import NodeSchema.Rust.Grammar.Basic

/-!
# Reading token trees without looking at places
-/

set_option autoImplicit false

namespace NodeSchema
namespace Rust
namespace Grammar

variable {α : Type}

theorem word_eq_none_of_text_ne {t : Token} {text : String} (ht : t.text ≠ text)
    (rest : List Tree) : word text (.leaf t :: rest) = none := by
  rw [word, Token.isWord, decide_eq_false ht, Bool.and_false]
  rfl

/-- The skipper does not look at places. -/
abbrev SkipsBlindly (p : Skipper) : Prop :=
  ∀ ts, p (ts.map Tree.unplaced) = (p ts).map (List.map Tree.unplaced)

/-- The parser does not look at places: those in its values are taken away by `g`. -/
abbrev ReadsBlindly (g : α → α) (p : Parser α) : Prop :=
  ∀ ts, p (ts.map Tree.unplaced) = (p ts).map (Prod.map g (List.map Tree.unplaced))

/-- The test does not look at places. -/
abbrev TestsBlindly (f : List Tree → Bool) : Prop := ∀ ts, f (ts.map Tree.unplaced) = f ts

section Steps

variable {β : Type} {g : α → α} {k : β → β}

/-- One step after the other. -/
theorem bind_blind {x x' : Option α} {f f' : α → Option β} (hx : x' = x.map g)
    (hf : ∀ a, f' (g a) = (f a).map k) : (x' >>= f') = (x >>= f).map k := by
  subst hx
  cases x with
  | none => rfl
  | some a => exact hf a

theorem map_blind {x x' : Option α} {f f' : α → β} (hx : x' = x.map g)
    (hf : ∀ a, f' (g a) = k (f a)) : x'.map f' = (x.map f).map k := by
  subst hx
  cases x with
  | none => rfl
  | some a => exact congrArg some (hf a)

/-- Two ways to go on. -/
theorem ite_blind {c : Prop} [Decidable c] {x x' y y' : Option α} (hx : c → x' = x.map g)
    (hy : ¬c → y' = y.map g) : (if c then x' else y') = (if c then x else y).map g := by
  split
  · exact hx ‹c›
  · exact hy ‹¬c›

theorem or_blind {x x' y y' : Option α} (hx : x' = x.map g) (hy : y' = y.map g) :
    x'.or y' = (x.or y).map g := by
  subst hx hy
  cases x with
  | none => rfl
  | some a => rfl

end Steps

/-! ## Single tokens -/

theorem word_blind (text : String) : SkipsBlindly (word text) := by
  rintro (_ | ⟨_ | _, rest⟩)
  · rfl
  · show (if _ then _ else _) = Option.map _ (if _ then _ else _)
    rw [apply_ite (Option.map _)]
    rfl
  · rfl

theorem anyWord_blind : ReadsBlindly Token.unplaced anyWord := by
  rintro (_ | ⟨_ | _, rest⟩)
  · rfl
  · show (if _ then _ else _) = Option.map _ (if _ then _ else _)
    rw [apply_ite (Option.map _)]
    rfl
  · rfl

theorem oneWord_blind (texts : List String) : SkipsBlindly (oneWord texts) := by
  intro ts
  rw [oneWord, oneWord, anyWord_blind]
  rcases anyWord ts with _ | ⟨t, rest⟩
  · rfl
  · show (if _ then _ else _) = Option.map _ (if _ then _ else _)
    rw [apply_ite (Option.map _)]
    rfl

theorem signFrom_blind (isFirst : Bool) (cs : List Char) : SkipsBlindly (signFrom isFirst cs) := by
  intro ts
  induction cs generalizing isFirst ts with
  | nil => rfl
  | cons c cs ih =>
    rcases ts with _ | ⟨_ | _, rest⟩
    · rfl
    · show (if _ then _ else _) = Option.map _ (if _ then _ else _)
      rw [apply_ite (Option.map _), ← ih]
      rfl
    · rfl

theorem sign_blind (text : String) : SkipsBlindly (sign text) := signFrom_blind _ _

theorem group_blind (opener : String) : ReadsBlindly (List.map Tree.unplaced) (group opener) := by
  rintro (_ | ⟨_ | ⟨o, body, c⟩, rest⟩)
  · rfl
  · rfl
  · show (if _ then some (Tree.unplacedAll body, _) else _) = Option.map _ (if _ then _ else _)
    rw [apply_ite (Option.map _), Tree.unplacedAll_eq_map]
    rfl

theorem groupThat_blind (opener : String) {accepts : List Tree → Bool} (h : TestsBlindly accepts) :
    SkipsBlindly (groupThat opener accepts) := by
  intro ts
  rw [groupThat, groupThat, group_blind]
  rcases group opener ts with _ | ⟨body, rest⟩
  · rfl
  · show (if accepts (body.map Tree.unplaced) then _ else _) = Option.map _ (if _ then _ else _)
    rw [apply_ite (Option.map _), h]
    rfl

theorem anyGroup_blind : ReadsBlindly Tree.unplaced anyGroup := by
  rintro (_ | ⟨_ | _, rest⟩) <;> rfl

/-! ## Combinations -/

theorem either_blind {g : α → α} {p q : Parser α} (hp : ReadsBlindly g p) (hq : ReadsBlindly g q) :
    ReadsBlindly g (either p q) := by
  intro ts
  rw [either, either, hp, hq]
  cases p ts with
  | none => rfl
  | some r => rfl

theorem firstOf_blind {ps : List Skipper} (h : ∀ p ∈ ps, SkipsBlindly p) :
    SkipsBlindly (firstOf ps) := by
  intro ts
  induction ps with
  | nil => rfl
  | cons p ps ih =>
    rw [List.forall_mem_cons] at h
    rw [firstOf, firstOf, List.findSome?_cons, List.findSome?_cons, h.1]
    cases p ts with
    | none => exact ih h.2
    | some r => rfl

theorem optionally_blind {p : Skipper} (h : SkipsBlindly p) (ts : List Tree) :
    optionally p (ts.map Tree.unplaced) = (optionally p ts).map Tree.unplaced := by
  rw [optionally, optionally, h]
  cases p ts with
  | none => rfl
  | some r => rfl

theorem optionally_then_blind {g : α → α} {p : Skipper} (hp : SkipsBlindly p) {q : Parser α}
    (hq : ReadsBlindly g q) : ReadsBlindly g fun ts ↦ q (optionally p ts) := by
  intro ts
  dsimp only
  rw [optionally_blind hp, hq]

theorem manyFuel_blind {p : Skipper} (h : SkipsBlindly p) (fuel : Nat) (ts : List Tree) :
    manyFuel p fuel (ts.map Tree.unplaced) = (manyFuel p fuel ts).map Tree.unplaced := by
  induction fuel generalizing ts with
  | zero => rfl
  | succ fuel ih =>
    rw [manyFuel, manyFuel, h]
    cases p ts with
    | none => rfl
    | some r => exact ih r

theorem many_blind {p : Skipper} (h : SkipsBlindly p) (ts : List Tree) :
    many p (ts.map Tree.unplaced) = (many p ts).map Tree.unplaced := by
  rw [many, many, List.length_map, manyFuel_blind h]

theorem skip_blind {g : α → α} {p : Parser α} (h : ReadsBlindly g p) : SkipsBlindly (skip p) := by
  intro ts
  rw [skip, skip, h]
  cases p ts with
  | none => rfl
  | some r => rfl

theorem unit_blind {p : Skipper} (h : SkipsBlindly p) : ReadsBlindly id (unit p) := by
  intro ts
  rw [unit, unit, h]
  cases p ts with
  | none => rfl
  | some r => rfl

theorem commaListFuel_blind {g : α → α} {p : Parser α} (h : ReadsBlindly g p) (fuel : Nat)
    (ts : List Tree) :
    commaListFuel p fuel (ts.map Tree.unplaced) = (commaListFuel p fuel ts).map (List.map g) := by
  induction fuel generalizing ts with
  | zero =>
    cases ts with
    | nil => rfl
    | cons => rfl
  | succ fuel ih =>
    cases ts with
    | nil => rfl
    | cons t ts =>
      show (p ((t :: ts).map Tree.unplaced) >>= _) = Option.map _ (p (t :: ts) >>= _)
      rw [h]
      cases p (t :: ts) with
      | none => rfl
      | some r =>
        obtain ⟨a, rest⟩ := r
        cases rest with
        | nil => rfl
        | cons u rest =>
          show (sign "," ((u :: rest).map Tree.unplaced) >>= _) =
            Option.map _ (sign "," (u :: rest) >>= _)
          rw [sign_blind]
          cases sign "," (u :: rest) with
          | none => rfl
          | some after =>
            cases after with
            | nil => rfl
            | cons v after =>
              show Option.map _ (commaListFuel p fuel ((v :: after).map Tree.unplaced)) =
                Option.map _ (Option.map _ (commaListFuel p fuel (v :: after)))
              rw [ih, Option.map_map, Option.map_map]
              rfl

/-- Whether all was read. -/
theorem isDone_blind (x : Option (List Tree)) :
    (x.map (List.map Tree.unplaced) matches some []) = (x matches some []) := by
  rcases x with _ | _ | _ <;> rfl

theorem isSome_blind {g : α → α} {x x' : Option α} (h : x' = x.map g) : x'.isSome = x.isSome := by
  rw [h, Option.isSome_map]

theorem isNone_blind {g : α → α} {x x' : Option α} (h : x' = x.map g) : x'.isNone = x.isNone := by
  rw [h, Option.isNone_map]

theorem commaList_blind {g : α → α} {p : Parser α} (h : ReadsBlindly g p) (ts : List Tree) :
    commaList p (ts.map Tree.unplaced) = (commaList p ts).map (List.map g) := by
  rw [commaList, commaList, sign_blind, List.length_map]
  have hfuel := commaListFuel_blind h ts.length ts
  rcases sign "," ts with _ | _ | _
  · exact hfuel
  · rfl
  · exact hfuel

/-- What is kept is the text of what was read. -/
theorem text_blind (f : String → α) (ts rest : List Tree) :
    some (f (textOf (consumed (ts.map Tree.unplaced) (rest.map Tree.unplaced))),
        rest.map Tree.unplaced) =
      (some (f (textOf (consumed ts rest)), rest)).map (Prod.map id (List.map Tree.unplaced)) := by
  rw [textOf_consumed_unplaced]
  rfl

theorem snd_blind {g : α → α} {x x' : Option (α × List Tree)}
    (h : x' = x.map (Prod.map g (List.map Tree.unplaced))) :
    x'.map Prod.snd = (x.map Prod.snd).map (List.map Tree.unplaced) :=
  map_blind h fun _ ↦ rfl

theorem TestsBlindly.unplacedAll {f : List Tree → Bool} (h : TestsBlindly f) (body : List Tree) :
    f (Tree.unplacedAll body) = f body := by
  rw [Tree.unplacedAll_eq_map, h]

theorem isEmpty_unplacedAll (ts : List Tree) : (Tree.unplacedAll ts).isEmpty = ts.isEmpty := by
  cases ts <;> rfl

end Grammar
end Rust
end NodeSchema
