import NodeSchema.Proofs.Result
import NodeSchema.Rust.Snippet

/-!
# Texts with one item

The declaration in a macro call is read from a text that must hold exactly one item of a given kind.
`HoldsOne` says that a parser finds such an item, and `item_eq_ok_iff` that it is the item of a
snippet exactly if the text of the snippet holds it.
-/

set_option autoImplicit false

namespace NodeSchema
namespace Rust

/-! ## Kinds of items -/

/-- The kinds of items, one by one. -/
def itemKinds : List ItemKind :=
  [.module, .struct, .enum, .union, .function, .signature, .implementation, .trait, .constant,
    .static, .typeAlias, .associatedType, .use, .externCrate, .foreignModule, .macroDefinition,
    .macroCall, .letDeclaration, .empty, .expression, .interpreter]

theorem mem_itemKinds (kind : ItemKind) : kind ∈ itemKinds := by
  cases kind <;> decide

theorem ItemKind.name_inj {kind kind' : ItemKind} : kind.name = kind'.name ↔ kind = kind' := by
  have hall : ∀ k ∈ itemKinds, ∀ k' ∈ itemKinds, k.name = k'.name → k = k' := by decide
  exact ⟨hall _ (mem_itemKinds _) _ (mem_itemKinds _), congrArg ItemKind.name⟩

theorem singleProblem_eq_none_iff {items : List (Attributed Item)} {kind : ItemKind} {n : Nat} :
    singleProblem items kind.name n = none ↔ ∃ i, items = [i] ∧ i.item.kind = kind := by
  match items with
  | [] => simp [singleProblem]
  | [i] => simp [singleProblem, ItemKind.name_inj]
  | i :: j :: items => simp [singleProblem, ite_eq_iff]

/-! ## One item -/

variable [FileParser]

/-- The parser finds exactly one item in the text, and it is of the given kind. -/
def HoldsOne (bytes : List UInt8) (kind : ItemKind) (i : Attributed Item) : Prop :=
  ∃ es, FileParser.parse bytes = .ok es ∧ itemsOf es = [i] ∧ i.item.kind = kind

/-- **Which item a snippet holds.** -/
theorem item_eq_ok_iff {s : Snippet} {kind : ItemKind} {i : Attributed Item} :
    s.item kind.name = .ok i ↔ HoldsOne s.bytes kind i := by
  rw [Snippet.item, HoldsOne]
  cases FileParser.parse s.bytes with
  | error e => exact ⟨nofun, fun ⟨_, h, _⟩ ↦ by cases h⟩
  | ok es =>
    dsimp only
    constructor
    · intro h
      split at h
      · cases h
      · next hproblem =>
        obtain ⟨j, hj, hkind⟩ := singleProblem_eq_none_iff.mp hproblem
        rw [hj] at h
        obtain rfl := Except.ok.inj h
        exact ⟨es, rfl, hj, hkind⟩
    · rintro ⟨_, ⟨⟩, hi, hkind⟩
      rw [singleProblem_eq_none_iff.mpr ⟨i, hi, hkind⟩, hi]

end Rust
end NodeSchema
