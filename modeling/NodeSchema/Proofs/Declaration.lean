import NodeSchema.Declaration.Recognize
import NodeSchema.Proofs.Rust.Cursor

/-!
# Declarations and their marker

A struct that is declared by a macro may carry a marker after its name, and then exists only with
the feature of that name.  No other declaration has features of its own: `features_of_recognize`
says which features a macro call gives, and `features_ofStruct` that a plain struct has none.
-/

set_option autoImplicit false

namespace NodeSchema
namespace Declaration

open Rust

/-- The call of the struct macro has the marker after the name. -/
def isMarked (source : Source) (call : MacroCall) : Bool :=
  let afterName := (Cursor.ofGroup source call.arguments).skipAttributes.2.advance 3
  Form.ofName? call.name = some .struct && (afterName.eatMarker fullMarker).1

theorem ofName?_name (form : Form) : Form.ofName? form.name = some form := by
  cases form <;> decide

/-! ## Enums -/

/-- What an enum declares: a variant for each of its variants, in order. -/
theorem ofEnum_eq_ok_iff {ident : String} {attributes : List Attribute}
    {variants : List (Entry Variant)} {d : Declaration} :
    ofEnum ident attributes variants = .ok d ↔
      ∃ ws, List.Forall₂ (fun v w ↦ ofVariant ident v = .ok w) (Entry.pair variants) ws ∧
        d = ⟨ident, .enum ws (Attribute.has "non_exhaustive" attributes), .always⟩ := by
  rw [ofEnum, bind_eq_ok]
  refine exists_congr fun ws ↦ ?_
  rw [mapM_eq_ok]
  exact and_congr_right fun _ ↦ ⟨fun h ↦ (Except.ok.inj h).symm, fun h ↦ congrArg _ h.symm⟩

/-! ## Names -/

theorem ident_ofStruct {ident : String} {body : StructBody} {d : Declaration}
    (h : ofStruct ident body = .ok d) : d.ident = ident := by
  cases body with
  | named | unit =>
    cases h
    rfl
  | positional => cases h

theorem ident_ofEnum {ident : String} {attributes : List Attribute}
    {variants : List (Entry Variant)} {d : Declaration}
    (h : ofEnum ident attributes variants = .ok d) : d.ident = ident := by
  obtain ⟨ws, -, rfl⟩ := ofEnum_eq_ok_iff.mp h
  rfl

/-! ## Features -/

theorem features_ofStruct {ident : String} {body : StructBody} {d : Declaration}
    (h : ofStruct ident body = .ok d) : d.features = .always := by
  cases body with
  | named | unit =>
    cases h
    rfl
  | positional => cases h

theorem features_ofEnum {ident : String} {attributes : List Attribute}
    {variants : List (Entry Variant)} {d : Declaration}
    (h : ofEnum ident attributes variants = .ok d) : d.features = .always := by
  obtain ⟨ws, -, rfl⟩ := ofEnum_eq_ok_iff.mp h
  rfl

variable [FileParser]

theorem features_enumOf {s : Snippet} {d : Declaration} (h : enumOf s = .ok d) :
    d.features = .always := by
  obtain ⟨i, -, h⟩ := bind_eq_ok.mp h
  split at h
  · exact features_ofEnum h
  · cases h

theorem features_recognizeStruct {source : Source} {g : Tree} {d : Declaration}
    (h : recognizeStruct source g = .ok d) :
    d.features =
      if (((Cursor.ofGroup source g).skipAttributes.2.advance 3).eatMarker fullMarker).1 then
        .ofList [fullMarker]
      else .always := by
  obtain ⟨⟨_, c₁⟩, h₁, h⟩ := bind_eq_ok.mp h
  obtain ⟨⟨_, c₂⟩, h₂, h⟩ := bind_eq_ok.mp h
  obtain ⟨⟨ident, c₃⟩, h₃, h⟩ := bind_eq_ok.mp h
  obtain ⟨-, -, -, rfl⟩ := Cursor.exists_of_expect h₁
  obtain ⟨-, -, -, rfl⟩ := Cursor.exists_of_expect h₂
  obtain ⟨-, -, -, -, -, rfl⟩ := Cursor.exists_of_expectIdentifier h₃
  obtain ⟨i, -, h⟩ := bind_eq_ok.mp h
  split at h
  · obtain ⟨d', -, h⟩ := bind_eq_ok.mp h
    exact congrArg Declaration.features (Except.ok.inj h).symm
  · cases h

theorem features_recognizeEnum {source : Source} {g : Tree} {d : Declaration}
    (h : recognizeEnum source g = .ok (some d)) : d.features = .always := by
  obtain ⟨_, -, h⟩ := bind_eq_ok.mp h
  obtain ⟨_, -, h⟩ := bind_eq_ok.mp h
  obtain ⟨_, -, h⟩ := bind_eq_ok.mp h
  dsimp only at h
  split at h
  · cases h
  · obtain ⟨d', hd', h⟩ := bind_eq_ok.mp h
    cases h
    exact features_enumOf hd'

theorem features_recognizeEnumOfStructs {source : Source} {g : Tree} {d : Declaration}
    (h : recognizeEnumOfStructs source g = .ok d) : d.features = .always := by
  obtain ⟨_, -, h⟩ := bind_eq_ok.mp h
  obtain ⟨_, -, h⟩ := bind_eq_ok.mp h
  obtain ⟨_, -, h⟩ := bind_eq_ok.mp h
  obtain ⟨_, -, h⟩ := bind_eq_ok.mp h
  obtain ⟨_, -, h⟩ := bind_eq_ok.mp h
  obtain ⟨_, -, h⟩ := bind_eq_ok.mp h
  exact features_enumOf h

/-- **A declaration that a macro call makes has the feature of the marker, if it is there.** -/
theorem features_of_recognize {source : Source} {call : MacroCall} {d : Declaration}
    (h : recognize source call = .ok (some d)) :
    d.features = if isMarked source call then .ofList [fullMarker] else .always := by
  rw [recognize] at h
  rw [isMarked]
  split at h
  · next hform =>
    obtain ⟨d', hd', h⟩ := map_eq_ok.mp h
    cases h
    rw [hform, features_recognizeStruct hd', decide_eq_true rfl, Bool.true_and]
  · next hform =>
    rw [hform]
    exact features_recognizeEnum h
  · next hform =>
    obtain ⟨d', hd', h⟩ := map_eq_ok.mp h
    cases h
    rw [hform]
    exact features_recognizeEnumOfStructs hd'
  · cases h

end Declaration
end NodeSchema
