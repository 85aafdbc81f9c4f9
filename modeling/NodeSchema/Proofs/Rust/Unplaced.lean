import NodeSchema.Feature.Gate
import NodeSchema.Rust.Attribute

/-!
# Source text apart from places

A token tells where it stands, and so does everything that is read off tokens.  `unplaced` takes the
places away and leaves the rest: two pieces of source text are written alike if they are equal apart
from places.  What attributes say is a matter of how they are written (`Cfg.ofAttribute_unplaced`,
`Cfg.ofAttributes_congr`).
-/

set_option autoImplicit false

namespace NodeSchema
namespace Rust

/-! ## Taking places away -/

namespace Tree

theorem unplacedAll_eq_map (ts : List Tree) : unplacedAll ts = ts.map unplaced := by
  induction ts with
  | nil => rfl
  | cons t ts ih => rw [unplacedAll, ih, List.map_cons]

end Tree

/-- The value of an attribute apart from its place. -/
def AttributeValue.unplaced : AttributeValue → AttributeValue
  | .string text _ => .string text 0
  | .other => .other

/-- An attribute apart from places. -/
def Attribute.unplaced (a : Attribute) : Attribute :=
  { a with start := 0, arguments := a.arguments.map Tree.unplaced
           value := a.value.map AttributeValue.unplaced }

/-- An entry apart from the places of attributes. -/
def Entry.unplaced {α : Type} : Entry α → Entry α
  | .comment text => .comment text
  | .innerAttribute a => .innerAttribute a.unplaced
  | .outerAttribute a => .outerAttribute a.unplaced
  | .item x => .item x

/-- What a struct consists of, apart from places. -/
def StructBody.unplaced : StructBody → StructBody
  | .named fields => .named (fields.map Entry.unplaced)
  | .positional => .positional
  | .unit => .unit

/-- A call of a macro apart from places. -/
def MacroCall.unplaced (call : MacroCall) : MacroCall :=
  { call with arguments := call.arguments.unplaced, start := 0 }

/-- What an item says, apart from places. -/
def ItemBody.unplaced : ItemBody → ItemBody
  | .struct body => .struct body.unplaced
  | .enum variants => .enum (variants.map Entry.unplaced)
  | .macroCall call => .macroCall call.unplaced
  | .expression call => .expression (call.map MacroCall.unplaced)
  | body => body

/-- An item apart from places. -/
def Item.unplaced (i : Item) : Item := { i with body := i.body.unplaced, start := 0 }

/-- An item with its attributes, apart from places. -/
def Attributed.unplaced (i : Attributed Item) : Attributed Item :=
  ⟨i.attributes.map Attribute.unplaced, i.item.unplaced⟩

/-- An entry of a file apart from places. -/
def Entry.unplacedItem : Entry Item → Entry Item
  | .comment text => .comment text
  | .innerAttribute a => .innerAttribute a.unplaced
  | .outerAttribute a => .outerAttribute a.unplaced
  | .item i => .item i.unplaced

/-- The item says nothing that depends on a place: it is no struct, and no macro call. -/
def ItemBody.IsOther : ItemBody → Prop
  | .enum _ | .expression _ | .typeAlias _ | .plain _ => True
  | .module _ | .struct _ | .use _ | .macroCall _ => False

/-- What two items are that say the same apart from places. -/
theorem ItemBody.unplaced_cases {b b' : ItemBody} (h : b.unplaced = b'.unplaced) :
    (∃ isInline, b = .module isInline ∧ b' = .module isInline) ∨
      (∃ body body', b = .struct body ∧ b' = .struct body' ∧ body.unplaced = body'.unplaced) ∨
      (∃ tree, b = .use tree ∧ b' = .use tree) ∨
      (∃ call call', b = .macroCall call ∧ b' = .macroCall call') ∨ b.IsOther ∧ b'.IsOther := by
  cases b <;> cases b' <;> simp_all [ItemBody.unplaced, ItemBody.IsOther]

/-! ## Trees -/

namespace Tree

mutual
theorem unplaced_unplaced (t : Tree) : t.unplaced.unplaced = t.unplaced := by
  cases t with
  | leaf t => rfl
  | group o body c =>
    rw [unplaced, unplaced, unplacedAll_unplacedAll body]
    rfl
theorem unplacedAll_unplacedAll (ts : List Tree) :
    unplacedAll (unplacedAll ts) = unplacedAll ts := by
  cases ts with
  | nil => rfl
  | cons t ts =>
    rw [unplacedAll, unplacedAll, unplaced_unplaced t, unplacedAll_unplacedAll ts]
end

theorem first_unplaced (t : Tree) : t.unplaced.first = t.first.unplaced := by
  cases t <;> rfl

theorem opener?_unplaced (t : Tree) : t.unplaced.opener? = t.opener? := by
  cases t <;> rfl

theorem body_unplaced (t : Tree) : t.unplaced.body = t.body.map unplaced := by
  cases t with
  | leaf t => rfl
  | group o body c => exact unplacedAll_eq_map body

mutual
theorem bare_unplaced (t : Tree) : t.unplaced.bare = t.bare := by
  cases t with
  | leaf t => rfl
  | group o body c =>
    rw [unplaced, bare, written_unplacedAll body, bare]
    rfl
theorem written_unplacedAll (ts : List Tree) : written (unplacedAll ts) = written ts := by
  cases ts with
  | nil => rfl
  | cons t ts =>
    rw [unplacedAll, written, bare_unplaced t, written_unplacedAll ts, first_unplaced, written]
    rfl
end

theorem text_unplaced (t : Tree) : t.unplaced.text = t.text := by
  rw [text, bare_unplaced, text]

mutual
theorem rendered_unplaced (t : Tree) : t.unplaced.rendered = t.rendered := by
  cases t with
  | leaf t => rfl
  | group o body c =>
    rw [unplaced, rendered, renderedAll_unplacedAll body, rendered]
    rfl
theorem renderedAll_unplacedAll (ts : List Tree) :
    renderedAll (unplacedAll ts) = renderedAll ts := by
  cases ts with
  | nil => rfl
  | cons t ts =>
    rw [unplacedAll, renderedAll, rendered_unplaced t, renderedAll_unplacedAll ts, renderedAll]
end

theorem render_unplaced (t : Tree) : t.unplaced.render = t.render := by
  rw [render, rendered_unplaced, render]

mutual
theorem size_unplaced (t : Tree) : t.unplaced.size = t.size := by
  cases t with
  | leaf t => rfl
  | group o body c => rw [unplaced, size, sizeList_unplacedAll body, size]
theorem sizeList_unplacedAll (ts : List Tree) : sizeList (unplacedAll ts) = sizeList ts := by
  cases ts with
  | nil => rfl
  | cons t ts => rw [unplacedAll, sizeList, size_unplaced t, sizeList_unplacedAll ts, sizeList]
end

theorem start_unplaced (t : Tree) : t.unplaced.start = 0 := by
  cases t <;> rfl

theorem stop_unplaced (t : Tree) : t.unplaced.stop = 0 := by
  cases t <;> rfl

theorem adjacentMarks_unplaced (ts : List Tree) :
    adjacentMarks (ts.map unplaced) = adjacentMarks ts := by
  induction ts with
  | nil => rfl
  | cons t ts ih =>
    cases t with
    | leaf t =>
      rw [List.map_cons, unplaced, adjacentMarks, adjacentMarks, ih]
      rfl
    | group => rfl

theorem operatorTail_unplaced (t : Tree) (ts : List Tree) :
    operatorTail t.unplaced (ts.map unplaced) = operatorTail t ts := by
  cases t with
  | leaf t =>
    rw [unplaced, operatorTail, operatorTail, adjacentMarks_unplaced]
    rfl
  | group => rfl

theorem mergeTokens_unplaced (t : Token) (ts : List Tree) :
    mergeTokens t.unplaced (ts.map unplaced) = (mergeTokens t ts).unplaced := by
  induction ts generalizing t with
  | nil => rfl
  | cons u ts ih =>
    rw [List.map_cons, mergeTokens, mergeTokens, ← ih, stop_unplaced, first_unplaced]
    rfl

mutual
/-- Operators are read from how they are written. -/
theorem joined_unplaced (t : Tree) : t.unplaced.joined = t.joined.unplaced := by
  cases t with
  | leaf t => rfl
  | group o body c => rw [unplaced, joined, joinedAfter_unplacedAll 0 body, joined, unplaced]
theorem joinedAfter_unplacedAll (skip : Nat) (ts : List Tree) :
    joinedAfter skip (unplacedAll ts) = unplacedAll (joinedAfter skip ts) := by
  cases ts with
  | nil => cases skip <;> rfl
  | cons t ts =>
    cases skip with
    | succ skip => rw [unplacedAll, joinedAfter, joinedAfter_unplacedAll skip ts, joinedAfter]
    | zero =>
      have htail := operatorTail_unplaced t ts
      have hrest := joinedAfter_unplacedAll (operatorTail t ts) ts
      cases t with
      | leaf t =>
        rw [unplaced, ← unplacedAll_eq_map] at htail
        rw [unplacedAll, unplaced, joinedAfter, joinedAfter, htail, hrest, unplacedAll, unplaced,
          unplacedAll_eq_map ts, ← List.map_take, mergeTokens_unplaced]
      | group o body c =>
        have hgroup := joined_unplaced (.group o body c)
        rw [unplaced] at hgroup
        rw [unplacedAll, unplaced, joinedAfter, joinedAfter, hgroup, unplacedAll]
        exact congrArg _ hrest
end

theorem sizeList_unplaced (ts : List Tree) : sizeList (ts.map unplaced) = sizeList ts := by
  rw [← unplacedAll_eq_map, sizeList_unplacedAll]

end Tree

theorem textOf_unplaced (ts : List Tree) : textOf (ts.map Tree.unplaced) = textOf ts := by
  cases ts with
  | nil => rfl
  | cons t ts =>
    rw [List.map_cons, textOf, Tree.bare_unplaced, ← Tree.unplacedAll_eq_map,
      Tree.written_unplacedAll, textOf]

theorem consumed_unplaced (ts rest : List Tree) :
    consumed (ts.map Tree.unplaced) (rest.map Tree.unplaced) =
      (consumed ts rest).map Tree.unplaced := by
  rw [consumed, consumed, List.map_take, List.length_map, List.length_map]

theorem textOf_consumed_unplaced (ts rest : List Tree) :
    textOf (consumed (ts.map Tree.unplaced) (rest.map Tree.unplaced)) =
      textOf (consumed ts rest) := by
  rw [consumed_unplaced, textOf_unplaced]
/-! ## Attributes -/

namespace Attribute

theorem has_unplaced (name : String) (as : List Attribute) :
    has name (as.map unplaced) = has name as := by
  rw [has, List.any_map]
  rfl

theorem hides_unplaced (a : Attribute) : a.unplaced.hides = a.hides := by
  obtain ⟨name, text, start, arguments, value⟩ := a
  rw [hides, hides]
  refine congrArg (decide (name = "doc") && ·) ?_
  match arguments with
  | none | some (.leaf _) | some (.group _ [] _) => rfl
  | some (.group o (t :: _) _) =>
    show (decide (o.text = "(") && decide (t.unplaced.text = "hidden")) = _
    rw [Tree.text_unplaced]

theorem isHidden_unplaced (as : List Attribute) : isHidden (as.map unplaced) = isHidden as := by
  have hhides : hides ∘ unplaced = hides := funext hides_unplaced
  rw [isHidden, List.any_map, hhides]
  rfl

end Attribute

end Rust

/-! ## Gates -/

open Rust

namespace Cfg

theorem feature?_unplaced (ts : List Tree) : feature? (ts.map Tree.unplaced) = feature? ts := by
  match ts with
  | [] | [_] | [_, _] => rfl
  | [word, equals, .leaf t] =>
    simp only [List.map_cons, List.map_nil, Tree.unplaced, feature?, Tree.text_unplaced]
    rfl
  | [_, _, .group _ _ _] => rfl
  | _ :: _ :: .leaf _ :: _ :: _ | _ :: _ :: .group _ _ _ :: _ :: _ => rfl

theorem features?_unplaced (ts : List Tree) : features? (ts.map Tree.unplaced) = features? ts := by
  match ts with
  | [] | [_] | [_, _] => rfl
  | [a, b, c] =>
    show (do some [← feature? ([a, b, c].map Tree.unplaced)]) = _
    rw [feature?_unplaced]
    rfl
  | a :: b :: c :: comma :: rest =>
    show (do
      let name ← feature? ([a, b, c].map Tree.unplaced)
      if comma.unplaced.text = "," then
        (features? (rest.map Tree.unplaced)).map (name :: ·) else none) = _
    rw [feature?_unplaced, Tree.text_unplaced, features?_unplaced rest]
    rfl

theorem predicate?_unplaced (ts : List Tree) :
    predicate? (ts.map Tree.unplaced) = predicate? ts := by
  match ts with
  | [] => rfl
  | [t] =>
    show (if t.unplaced.text = "any" then none else if t.unplaced.text = "feature" then
      (feature? ([t].map Tree.unplaced)).map _ else none) = _
    rw [Tree.text_unplaced, feature?_unplaced]
    rfl
  | [t, g] =>
    show (if t.unplaced.text = "any" then if g.unplaced.opener? = some "(" then
      (features? g.unplaced.body).map _ else none else if t.unplaced.text = "feature" then
      (feature? ([t, g].map Tree.unplaced)).map _ else none) = _
    rw [Tree.text_unplaced, feature?_unplaced, Tree.opener?_unplaced, Tree.body_unplaced,
      features?_unplaced]
    rfl
  | t :: u :: v :: rest =>
    show (if t.unplaced.text = "any" then none else if t.unplaced.text = "feature" then
      (feature? ((t :: u :: v :: rest).map Tree.unplaced)).map _ else none) = _
    rw [Tree.text_unplaced, feature?_unplaced]
    rfl

/-- **What a `cfg` attribute says does not depend on its place.** -/
theorem ofAttribute_unplaced (a : Attribute) : ofAttribute a.unplaced = ofAttribute a := by
  rw [ofAttribute, ofAttribute]
  cases h : a.arguments with
  | none =>
    have hnone : a.unplaced.arguments = none := by rw [Attribute.unplaced, h]; rfl
    rw [hnone]
    rfl
  | some g =>
    have hsome : a.unplaced.arguments = some g.unplaced := by rw [Attribute.unplaced, h]; rfl
    rw [hsome]
    dsimp only
    rw [Tree.opener?_unplaced, Tree.body_unplaced, predicate?_unplaced, Tree.render_unplaced]
    rfl

theorem select_unplaced (as : List Attribute) :
    select (as.map Attribute.unplaced) = (select as).map Attribute.unplaced := by
  rw [select, select, List.filter_map]
  rfl

theorem combineFrom_unplaced (current : Features) (as : List Attribute) :
    combineFrom current (as.map Attribute.unplaced) = combineFrom current as := by
  induction as generalizing current with
  | nil => rfl
  | cons a as ih => simp only [List.map_cons, combineFrom, ofAttribute_unplaced, ih]

/-- **What attributes gate does not depend on their places.** -/
theorem ofAttributes_congr {as as' : List Attribute}
    (h : as.map Attribute.unplaced = as'.map Attribute.unplaced) :
    ofAttributes as = ofAttributes as' := by
  rw [ofAttributes, ofAttributes, ← combineFrom_unplaced, ← select_unplaced, h, select_unplaced,
    combineFrom_unplaced]

end Cfg
end NodeSchema
