import NodeSchema.Proofs.Declaration.Entries
import NodeSchema.Proofs.Schema.Lookup
import NodeSchema.Rust.Grammar.File

/-!
# Hidden variants

A variant is hidden from documentation by an attribute `doc(...)` that has `hidden` among its
arguments (`Attribute.SaysHidden`).  What is read is whether the arguments begin with `hidden`
(`Attribute.BeginsHidden`, `hides_iff`).  The two are the same where `hidden` stands nowhere but in
front, as an argument of its own (`beginsHidden_iff_saysHidden`).

* `HidesVariants` — a declaration has the given variants and hides those that begin with `hidden`,
  and a schema leaves out these and no others;
* `hidesVariants_of_ofItem` — so it is for every enum that is read as an item;
* `hidden_iff` — and for every call that is recognised as an enum;
* `not_hidden_iff_saysHidden` — `hidden` behind another argument is overlooked.
-/

set_option autoImplicit false

namespace NodeSchema

open Rust

/-! ## Attributes that hide -/

namespace Rust.Attribute

/-- The attribute is a `doc` with the given tokens in parentheses. -/
def IsDocOf (body : List Tree) (a : Attribute) : Prop :=
  a.name = "doc" ∧ ∃ o c, a.arguments = some (.group o body c) ∧ o.text = "("

/-- The attribute is a `doc(...)` that has `hidden` among its arguments: from comma to comma, or to
the end on either side, nothing but `hidden` stands there. -/
def SaysHidden (a : Attribute) : Prop :=
  ∃ before t after, a.IsDocOf (before ++ t :: after) ∧ t.text = "hidden" ∧
    (∀ u ∈ before.getLast?, u.text = ",") ∧ ∀ u ∈ after.head?, u.text = ","

/-- The attribute is a `doc(...)` whose first token is `hidden`. -/
def BeginsHidden (a : Attribute) : Prop :=
  ∃ t after, a.IsDocOf (t :: after) ∧ t.text = "hidden"

/-- If the attribute is a `doc(...)`, then `hidden` stands nowhere in it but in front, as an
argument of its own. -/
def IsPlainDoc (a : Attribute) : Prop :=
  ∀ before t after, a.IsDocOf (before ++ t :: after) → t.text = "hidden" →
    before = [] ∧ ∀ u ∈ after.head?, u.text = ","

variable {a : Attribute}

theorem hides_iff : a.hides = true ↔ a.BeginsHidden := by
  have hdoc {body : List Tree} : a.IsDocOf body ↔
      a.name = "doc" ∧ ∃ o c, a.arguments = some (.group o body c) ∧ o.text = "(" := Iff.rfl
  simp only [BeginsHidden, hdoc, hides, Bool.and_eq_true, decide_eq_true_eq]
  rcases a.arguments with - | ⟨_ | ⟨o, - | ⟨t, after⟩, c⟩⟩ <;> simp [and_assoc]

theorem isHidden_iff {as : List Attribute} : isHidden as = true ↔ ∃ a ∈ as, a.BeginsHidden := by
  simp only [isHidden, List.any_eq_true, hides_iff]

theorem beginsHidden_iff_saysHidden (h : a.IsPlainDoc) : a.BeginsHidden ↔ a.SaysHidden := by
  constructor
  · rintro ⟨t, after, hdoc, ht⟩
    exact ⟨[], t, after, hdoc, ht, by simp, (h [] t after hdoc ht).2⟩
  · rintro ⟨before, t, after, hdoc, ht, -⟩
    obtain ⟨rfl, -⟩ := h before t after hdoc ht
    exact ⟨t, after, hdoc, ht⟩

end Rust.Attribute

namespace Declaration

/-! ## What a declaration says of its variants -/

/-- The declaration of a variant: hidden if an attribute begins with `hidden`. -/
structure Reflects (v : Attributed Variant) (w : VariantDeclaration) : Prop where
  name : w.name = v.item.name
  hidden : w.isHidden = true ↔ ∃ a ∈ v.attributes, a.BeginsHidden
  plain : (∀ a ∈ v.attributes, a.IsPlainDoc) →
    (w.isHidden = true ↔ ∃ a ∈ v.attributes, a.SaysHidden)

/-- The node lists the variants that are not hidden, in order, and is open if one is hidden. -/
structure ShowsVisible (ws : List VariantDeclaration) (n : Node) : Prop where
  variants : ∃ shown, n.data = .variants shown ∧
    List.Forall₂ (fun w x ↦ x.1 = w.name) (ws.filter fun w ↦ !w.isHidden) shown
  exhaustive : (∃ w ∈ ws, w.isHidden = true) → n.exhaustive = false

/-- The declaration has the given variants, and hides the ones that begin with `hidden`; so does
every node that is made of it. -/
def HidesVariants (vs : List (Attributed Variant)) (d : Declaration) : Prop :=
  ∃ ws nonExhaustive, d.members = .enum ws nonExhaustive ∧ List.Forall₂ Reflects vs ws ∧
    ∀ (scope : Scope) (n : Node), scope.node d = .ok n → ShowsVisible ws n

theorem reflects_of_ofVariant {ident : String} {v : Attributed Variant} {w : VariantDeclaration}
    (h : ofVariant ident v = .ok w) : Reflects v w := by
  have hw : w.name = v.item.name ∧ w.isHidden = Attribute.isHidden v.attributes := by
    rw [ofVariant] at h
    split at h <;> cases h <;> exact ⟨rfl, rfl⟩
  have hhidden : w.isHidden = true ↔ ∃ a ∈ v.attributes, a.BeginsHidden := by
    rw [hw.2, Attribute.isHidden_iff]
  refine ⟨hw.1, hhidden, fun hplain ↦ hhidden.trans ?_⟩
  exact exists_congr fun a ↦ and_congr_right fun ha ↦
    Attribute.beginsHidden_iff_saysHidden (hplain a ha)

theorem showsVisible_of_node {ident : String} {ws : List VariantDeclaration}
    {nonExhaustive : Bool} {features : Features} {scope : Scope} {n : Node}
    (h : scope.node ⟨ident, .enum ws nonExhaustive, features⟩ = .ok n) : ShowsVisible ws n := by
  rw [Scope.node_enum] at h
  obtain ⟨shown, hshown, rfl⟩ := map_eq_ok.mp h
  refine ⟨⟨shown, rfl, (Scope.variants_eq_ok.mp hshown).imp fun w x hx ↦ hx.1⟩, ?_⟩
  rintro ⟨w, hw, hhidden⟩
  have hany : ws.any VariantDeclaration.isHidden = true := List.any_eq_true.mpr ⟨w, hw, hhidden⟩
  show (!(nonExhaustive || ws.any VariantDeclaration.isHidden)) = false
  rw [hany, Bool.or_true]
  rfl

theorem hidesVariants_of_ofEnum {ident : String} {attributes : List Attribute}
    {variants : List (Entry Variant)} {d : Declaration}
    (h : ofEnum ident attributes variants = .ok d) : HidesVariants (Entry.pair variants) d := by
  obtain ⟨ws, hws, rfl⟩ := ofEnum_eq_ok_iff.mp h
  exact ⟨ws, _, rfl, hws.imp fun v w ↦ reflects_of_ofVariant,
    fun scope n ↦ showsVisible_of_node⟩

/-- **Which variants of an item are hidden**: those with an attribute `doc(...)` that begins with
`hidden`. -/
theorem hidesVariants_of_ofItem {i : Attributed Item} {variants : List (Entry Variant)}
    {d : Declaration} (hbody : i.item.body = .enum variants) (h : ofItem i = some (.ok d)) :
    HidesVariants (Entry.pair variants) d := by
  rw [ofItem, hbody] at h
  exact hidesVariants_of_ofEnum (Option.some.inj h)

/-- **Which variants of a declaration are hidden**: those with an attribute `doc(...)` that begins
with `hidden`.  It is so for every call that is recognised as an enum, where the variants are those
of the one enum in the text that the call is read from, and for every enum that is read as an item;
and schemas leave out these variants and no others. -/
theorem hidden_iff [FileParser] (d : Declaration) :
    (∀ (source : Source) (g : Tree) (form : Form) (text : String) (start : Nat), form ≠ .struct →
      recognize source ⟨form.name, g, text, start⟩ = .ok (some d) →
        ∃ (c : CallBody) (bytes : List UInt8) (i : Attributed Item)
          (variants : List (Entry Variant)),
          g.body = c.trees ∧ c.IsProper form ∧ c.IsCopy source form (g.stop - 1) bytes ∧
            HoldsOne bytes .enum i ∧ i.item.body = .enum variants ∧
              HidesVariants (Entry.pair variants) d) ∧
    ∀ (i : Attributed Item) (variants : List (Entry Variant)), i.item.body = .enum variants →
      ofItem i = some (.ok d) → HidesVariants (Entry.pair variants) d := by
  refine ⟨fun source g form text start hform h ↦ ?_, fun i variants ↦ hidesVariants_of_ofItem⟩
  obtain ⟨c, bytes, hbody, hc, -, hcopy, hd⟩ := exists_copy_of_recognize h
  have henum : DeclaresEnum bytes d := by
    cases form with
    | struct => exact absurd rfl hform
    | enum | enumOfStructs => exact hd
  obtain ⟨i, variants, hi, hvariants, hd⟩ := henum
  exact ⟨c, bytes, i, variants, hbody, hc, hcopy, hi, hvariants, hidesVariants_of_ofEnum hd⟩

/-! ## Where `hidden` is not the first argument -/

/-- A text with a call that hides two variants. -/
def twoHidden : Source := .ofString "lib.rs"
  "ast_enum! \x7b pub enum E \x7b #[doc(hidden)] A, #[doc(alias = \"b\", hidden)] B, \x7d \x7d"

/-- The tokens of the call, between its delimiters. -/
def twoHiddenGroup : Tree :=
  ((trees? twoHidden.bytes).bind (·[2]?)).elim (.leaf ⟨.mark, "", [], 0, 0⟩) Tree.joined

/-- The attribute of the first variant. -/
def firstMark : Attribute where
  name := "doc"
  text := "doc(hidden)"
  start := 27
  arguments := some (.group ⟨.mark, "(", [], 30, 31⟩ [.leaf ⟨.word, "hidden", [], 31, 37⟩]
    ⟨.mark, ")", [], 37, 38⟩)
  value := none

/-- The attribute of the second variant. -/
def secondMark : Attribute where
  name := "doc"
  text := "doc(alias = \"b\", hidden)"
  start := 45
  arguments := some (.group ⟨.mark, "(", [], 48, 49⟩
    ([.leaf ⟨.word, "alias", [], 49, 54⟩, .leaf ⟨.mark, "=", [⟨.blank, [' ']⟩], 55, 56⟩,
      .leaf ⟨.string, "\"b\"", [⟨.blank, [' ']⟩], 57, 60⟩, .leaf ⟨.mark, ",", [], 60, 61⟩] ++
        .leaf ⟨.word, "hidden", [⟨.blank, [' ']⟩], 62, 68⟩ :: []) ⟨.mark, ")", [], 68, 69⟩)
  value := none

/-- The variants of the call and their attributes, side by side. -/
def twoHiddenEntries : List (Entry Variant) :=
  [.outerAttribute firstMark, .item ⟨"A", .unit⟩, .outerAttribute secondMark, .item ⟨"B", .unit⟩]

/-- The enum that the variants make up. -/
def twoHiddenItem : Attributed Item := ⟨[], ⟨.enum twoHiddenEntries, some "E", true, "", 0⟩⟩

/-- What the call declares. -/
def twoHiddenDeclaration : Declaration :=
  ⟨"E", .enum [⟨"A", [], true⟩, ⟨"B", [], false⟩] false, .always⟩

theorem recognize_twoHidden :
    recognize twoHidden ⟨Form.enum.name, twoHiddenGroup, "", 0⟩ =
      .ok (some twoHiddenDeclaration) := by
  decide +kernel

theorem ofItem_twoHidden : ofItem twoHiddenItem = some (.ok twoHiddenDeclaration) := by
  decide +kernel

theorem hidden_iff_twoHidden :
    (∃ (c : CallBody) (bytes : List UInt8) (i : Attributed Item) (variants : List (Entry Variant)),
      twoHiddenGroup.body = c.trees ∧ c.IsProper .enum ∧
        c.IsCopy twoHidden .enum (twoHiddenGroup.stop - 1) bytes ∧ HoldsOne bytes .enum i ∧
          i.item.body = .enum variants ∧
            HidesVariants (Entry.pair variants) twoHiddenDeclaration) ∧
    HidesVariants (Entry.pair twoHiddenEntries) twoHiddenDeclaration :=
  ⟨(hidden_iff twoHiddenDeclaration).1 twoHidden twoHiddenGroup .enum "" 0 (by decide)
      recognize_twoHidden,
    (hidden_iff twoHiddenDeclaration).2 twoHiddenItem _ rfl ofItem_twoHidden⟩

/-- **`hidden` behind another argument is overlooked**, and the variant is not hidden. -/
theorem not_hidden_iff_saysHidden :
    recognize twoHidden ⟨Form.enum.name, twoHiddenGroup, "", 0⟩ = .ok (some twoHiddenDeclaration) ∧
    ¬ ∀ (i : Attributed Item) (variants : List (Entry Variant)) (d : Declaration)
      (ws : List VariantDeclaration) (nonExhaustive : Bool), i.item.body = .enum variants →
        ofItem i = some (.ok d) → d.members = .enum ws nonExhaustive →
          List.Forall₂ (fun v w ↦ w.isHidden = true ↔ ∃ a ∈ v.attributes, a.SaysHidden)
            (Entry.pair variants) ws := by
  refine ⟨recognize_twoHidden, fun hall ↦ ?_⟩
  have hhidden := hall twoHiddenItem twoHiddenEntries twoHiddenDeclaration _ _ rfl
    ofItem_twoHidden rfl
  have hsays : secondMark.SaysHidden :=
    ⟨_, _, [], ⟨rfl, _, _, rfl, rfl⟩, by decide, by decide, by decide⟩
  cases hhidden with
  | cons _ hrest =>
    cases hrest with
    | cons hsecond _ => cases hsecond.mpr ⟨secondMark, List.mem_singleton_self _, hsays⟩

end Declaration
end NodeSchema
