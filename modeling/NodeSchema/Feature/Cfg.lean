import NodeSchema.Feature.Basic
import NodeSchema.Rust.Attribute

/-!
# Feature predicates in attributes

A `cfg` attribute gates its item behind one feature, `cfg(feature = "x")`, or behind any of
several, `cfg(any(feature = "x", feature = "y"))`, where a comma may follow the last.  Every other
form is refused.
-/

set_option autoImplicit false

namespace NodeSchema
namespace Cfg

open Rust

/-- One `feature = "name"`. -/
def feature? : List Tree → Option String
  | [word, equals, .leaf t] =>
    if word.text = "feature" && equals.text = "=" && t.kind = .string then
      some (String.ofList (Tree.unquoted t.text.toList))
    else none
  | _ => none

/-- A list of `feature = "name"` with commas between them. -/
def features? : List Tree → Option (List String)
  | [] => some []
  | a :: b :: c :: rest => do
    let name ← feature? [a, b, c]
    match rest with
    | [] => some [name]
    | comma :: rest' =>
      if comma.text = "," then (features? rest').map (name :: ·) else none
  | _ => none

/-- The predicate that the arguments of a `cfg` spell. -/
def predicate? (arguments : List Tree) : Option Features :=
  match arguments with
  | [] => none
  | first :: rest =>
    if first.text = "any" then
      match rest with
      | [g] => if g.opener? = some "(" then (features? g.body).map .ofList else none
      | _ => none
    else if first.text = "feature" then (feature? arguments).map fun n => .ofList [n]
    else none

/-- The predicate of a `cfg` attribute. -/
def ofAttribute (a : Attribute) : Except Failure Features :=
  match a.arguments with
  | some g =>
    if g.opener? = some "(" then
      match predicate? g.body with
      | some f => .ok f
      | none => .error (.unsupportedPredicate g.render)
    else .error (.unsupportedCfg a.text)
  | none => .error (.unsupportedCfg a.text)

/-- The `cfg` attributes among attributes. -/
def select (attributes : List Attribute) : List Attribute :=
  attributes.filter fun a => a.name = "cfg"

/-- Reads and merges attributes from the first to the last. -/
def combineFrom (current : Features) : List Attribute → Except Failure Features
  | [] => .ok current
  | a :: as => do
    let f ← ofAttribute a
    let merged ← current.merge? f
    combineFrom merged as

/-- The predicate of all the `cfg` attributes among attributes. -/
def ofAttributes (attributes : List Attribute) : Except Failure Features :=
  combineFrom .always (select attributes)

end Cfg
end NodeSchema
