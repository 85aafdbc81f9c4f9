import Mathlib.Data.List.DropRight
import Mathlib.Data.List.Forall2
import NodeSchema.Rust.Item

/-!
# Every attribute belongs to one item

The entries of a list are read from the front, with the outer attributes pending that no item has
taken yet.  A list can be cut anywhere: what is pending where the front part ends is all that the
rest depends on (`pairFrom_append`), and that is the outer attributes of the entries since the last
item (`trailing_eq`).  From these two:

* `attributes_pairFrom` — no attribute is lost, given twice or moved past another one;
* `getElem?_pair` — an item gets the attributes since the item before it, and no others;
* `pairFrom_filter` — comments and inner attributes do not matter;
* `itemsOf_attaches` — all of this for files, where a macro call stands for the statement that
  consists of it, and for the members of structs and enums.
-/

set_option autoImplicit false

namespace NodeSchema
namespace Rust

namespace Entry

variable {α : Type}

/-- The entry is an item. -/
def isItem : Entry α → Bool
  | .item _ => true
  | _ => false

/-- The entry is a comment or an inner attribute, and so belongs to no item. -/
def standsAlone : Entry α → Bool
  | .comment _ | .innerAttribute _ => true
  | _ => false

/-- The entries behind the last item. -/
def sinceItem (es : List (Entry α)) : List (Entry α) := es.rtakeWhile fun e ↦ !e.isItem

/-! ## Cutting a list in two -/

theorem outerAttributes_append (es es' : List (Entry α)) :
    outerAttributes (es ++ es') = outerAttributes es ++ outerAttributes es' :=
  List.filterMap_append

/-- The rest of a list depends on what is pending in front of it, and on nothing else. -/
theorem pairFrom_append (pending : List Attribute) (es es' : List (Entry α)) :
    pairFrom pending (es ++ es') =
      pairFrom pending es ++ pairFrom (trailingFrom pending es) es' := by
  induction es generalizing pending with
  | nil => rfl
  | cons e es ih =>
    cases e with
    | comment => exact ih pending
    | innerAttribute => exact ih pending
    | outerAttribute a => exact ih (pending ++ [a])
    | item x => exact congrArg (⟨pending, x⟩ :: ·) (ih [])

theorem trailingFrom_append (pending : List Attribute) (es es' : List (Entry α)) :
    trailingFrom pending (es ++ es') = trailingFrom (trailingFrom pending es) es' := by
  induction es generalizing pending with
  | nil => rfl
  | cons e es ih =>
    cases e with
    | comment => exact ih pending
    | innerAttribute => exact ih pending
    | outerAttribute a => exact ih (pending ++ [a])
    | item => exact ih []

theorem sinceItem_concat_item (es : List (Entry α)) (x : α) : sinceItem (es ++ [.item x]) = [] :=
  List.rtakeWhile_concat_neg _ _ _ Bool.false_ne_true

theorem sinceItem_concat (es : List (Entry α)) {e : Entry α} (h : e.isItem = false) :
    sinceItem (es ++ [e]) = sinceItem es ++ [e] :=
  List.rtakeWhile_concat_pos _ _ _ (by rw [h]; rfl)

/-- What is pending at the end is the outer attributes since the last item. -/
theorem trailing_eq (es : List (Entry α)) : trailing es = outerAttributes (sinceItem es) := by
  induction es using List.reverseRecOn with
  | nil => rfl
  | append_singleton es e ih =>
    rw [trailing, trailingFrom_append, ← trailing, ih]
    cases e with
    | item x => rw [sinceItem_concat_item]; rfl
    | outerAttribute a => rw [sinceItem_concat es rfl, outerAttributes_append]; rfl
    | comment | innerAttribute =>
      rw [sinceItem_concat es rfl, outerAttributes_append]
      exact (List.append_nil _).symm

/-! ## Items and their attributes -/

theorem items_pairFrom (pending : List Attribute) (es : List (Entry α)) :
    (pairFrom pending es).map Attributed.item = items es := by
  induction es generalizing pending with
  | nil => rfl
  | cons e es ih =>
    cases e with
    | comment => exact ih pending
    | innerAttribute => exact ih pending
    | outerAttribute a => exact ih (pending ++ [a])
    | item x => exact congrArg (x :: ·) (ih [])

theorem items_pair_map (f : α → α) (es : List (Entry α)) :
    ((pair es).map fun i ↦ (⟨i.attributes, f i.item⟩ : Attributed α)).map Attributed.item =
      (items es).map f := by
  rw [← items_pairFrom [] es, List.map_map, List.map_map]
  rfl

/-- The attributes of the items and those behind the last item are the outer attributes of the list,
each once and in order. -/
theorem attributes_pairFrom (pending : List Attribute) (es : List (Entry α)) :
    (pairFrom pending es).flatMap Attributed.attributes ++ trailingFrom pending es =
      pending ++ outerAttributes es := by
  induction es generalizing pending with
  | nil => exact (List.append_nil _).symm
  | cons e es ih =>
    cases e with
    | comment => exact ih pending
    | innerAttribute => exact ih pending
    | outerAttribute a =>
      calc _ = (pending ++ [a]) ++ outerAttributes es := ih (pending ++ [a])
        _ = pending ++ (a :: outerAttributes es) := List.append_assoc ..
    | item x =>
      have htaken : (pairFrom pending (.item x :: es)).flatMap Attributed.attributes =
          pending ++ (pairFrom [] es).flatMap Attributed.attributes := List.flatMap_cons
      rw [htaken, List.append_assoc]
      exact congrArg (pending ++ ·) (ih [])

/-- An item gets the outer attributes since the item before it. -/
theorem getElem?_pair (before : List (Entry α)) (x : α) (after : List (Entry α)) :
    (pair (before ++ .item x :: after))[(items before).length]? =
      some ⟨outerAttributes (sinceItem before), x⟩ := by
  have hlength : (items before).length = (pairFrom [] before).length := by
    rw [← items_pairFrom [] before, List.length_map]
  rw [pair, pairFrom_append, ← trailing, trailing_eq, hlength, List.getElem?_append_right le_rfl,
    Nat.sub_self]
  rfl

/-- Comments and inner attributes do not matter. -/
theorem pairFrom_filter (pending : List Attribute) (es : List (Entry α)) :
    pairFrom pending (es.filter fun e ↦ !e.standsAlone) = pairFrom pending es := by
  induction es generalizing pending with
  | nil => rfl
  | cons e es ih =>
    cases e with
    | comment => exact ih pending
    | innerAttribute => exact ih pending
    | outerAttribute a => exact ih (pending ++ [a])
    | item x => exact congrArg (⟨pending, x⟩ :: ·) (ih [])

/-- What `attached` says of the items of `es` and their attributes is right.  The items come in
order, each one as `R` has it; every outer attribute of the list is given to one item, or stands
behind the last item; and what an item is given is the outer attributes since the item before it. -/
structure Attaches (R : α → α → Prop) (es : List (Entry α)) (attached : List (Attributed α)) :
    Prop where
  items : List.Forall₂ R (Entry.items es) (attached.map Attributed.item)
  attributes : attached.flatMap Attributed.attributes ++ outerAttributes (sinceItem es) =
    outerAttributes es
  run : ∀ before x after, es = before ++ .item x :: after →
    ∃ i, attached[(Entry.items before).length]? = some i ∧ R x i.item ∧
      i.attributes = outerAttributes (sinceItem before)

/-- Items keep their attributes when something else is handed on in their place. -/
theorem attaches_map {R : α → α → Prop} {f : α → α} (hR : ∀ x, R x (f x)) (es : List (Entry α)) :
    Attaches R es ((pair es).map fun i ↦ ⟨i.attributes, f i.item⟩) where
  items := by
    rw [items_pair_map, List.forall₂_map_right_iff, List.forall₂_same]
    exact fun x _ ↦ hR x
  attributes := by
    rw [List.flatMap_map, ← trailing_eq]
    exact attributes_pairFrom [] es
  run := by
    rintro before x after rfl
    rw [List.getElem?_map, getElem?_pair]
    exact ⟨_, rfl, hR x, rfl⟩

end Entry

theorem items_itemsOf (es : List (Entry Item)) :
    (itemsOf es).map Attributed.item = (Entry.items es).map Item.unwrapped :=
  Entry.items_pair_map Item.unwrapped es

/-- What is handed on of an item of a file: the macro call that a statement consists of, and
otherwise the item itself. -/
inductive Item.HandedOn : Item → Item → Prop
  | call {i : Item} {call : MacroCall} (h : i.body = .expression (some call)) :
      HandedOn i ⟨.macroCall call, none, false, call.text, call.start⟩
  | itself {i : Item} (h : ∀ call, i.body ≠ .expression (some call)) : HandedOn i i

theorem Item.handedOn_unwrapped (i : Item) : i.HandedOn i.unwrapped := by
  rw [unwrapped]
  split
  · next call hcall => exact .call hcall
  · next hother => exact .itself fun call hcall ↦ hother call hcall

/-- **Every attribute belongs to exactly one item.**  The items of a file are its entries that are
no comments and no attributes, in order, where a macro call stands for the statement that consists
of it; all outer attributes go to the items, each once and in order, but for those behind the last
item; and an item has the outer attributes since the item before it, whatever comments and inner
attributes stand between them.  The same goes for the members of structs and enums. -/
theorem itemsOf_attaches :
    (∀ es : List (Entry Item), Entry.Attaches Item.HandedOn es (itemsOf es) ∧
      itemsOf (es.filter fun e ↦ !e.standsAlone) = itemsOf es) ∧
    ∀ (α : Type) (es : List (Entry α)), Entry.Attaches Eq es (Entry.pair es) ∧
      Entry.pair (es.filter fun e ↦ !e.standsAlone) = Entry.pair es := by
  refine ⟨fun es ↦ ⟨Entry.attaches_map Item.handedOn_unwrapped es, ?_⟩, fun α es ↦ ⟨?_, ?_⟩⟩
  · rw [itemsOf, Entry.pair, Entry.pairFrom_filter]
    rfl
  · have hattaches := Entry.attaches_map (f := id) (R := Eq) (fun _ ↦ rfl) es
    rwa [List.map_id''] at hattaches
    exact fun _ ↦ rfl
  · exact Entry.pairFrom_filter [] es

/-- A comment between two attributes parts them from nothing, and what stands behind the last item
belongs to none. -/
example (a b c : Attribute) : Entry.pair (α := Nat)
    [.comment "//! A", .innerAttribute a, .outerAttribute a, .comment "// B", .outerAttribute b,
      .item 1, .item 2, .outerAttribute c] = [⟨[a, b], 1⟩, ⟨[], 2⟩] := rfl

end Rust
end NodeSchema
