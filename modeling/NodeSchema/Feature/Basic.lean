import NodeSchema.Failure

/-!
# Feature predicates

A declaration exists when one of the features that its predicate lists is enabled; the empty
predicate means that it always exists.  Predicates are kept as sorted lists without repetition
(`Features.ofList`), so that equal predicates are equal values.

Two gates on one declaration must be nested, and the narrower one holds (`Features.merge?`).
-/

set_option autoImplicit false

namespace NodeSchema

/-- Puts a name in its place among sorted names, unless it is there. -/
def insertName (name : String) : List String → List String
  | [] => [name]
  | n :: ns =>
    if name < n then name :: n :: ns
    else if name = n then n :: ns
    else n :: insertName name ns

/-- The names of a list in order of code points, each once. -/
def sortedNames (names : List String) : List String := names.foldr insertName []

theorem mem_insertName {name x : String} {ns : List String} :
    x ∈ insertName name ns ↔ x = name ∨ x ∈ ns := by
  induction ns with
  | nil => simp [insertName]
  | cons n ns ih =>
    simp only [insertName]
    split
    · simp
    · split
      · next h => subst h; simp
      · simp only [List.mem_cons, ih]; grind

/-- Sorting keeps the names. -/
theorem mem_sortedNames {x : String} {ns : List String} : x ∈ sortedNames ns ↔ x ∈ ns := by
  induction ns with
  | nil => simp [sortedNames]
  | cons n ns ih =>
    have : sortedNames (n :: ns) = insertName n (sortedNames ns) := rfl
    rw [this, mem_insertName, ih, List.mem_cons]

/-- A predicate on features: one of the names is enabled, or there are no names. -/
structure Features where
  names : List String
deriving DecidableEq, Repr

namespace Features

/-- The predicate that always holds. -/
def always : Features := ⟨[]⟩

/-- The predicate that one of the given features is enabled. -/
def ofList (names : List String) : Features := ⟨sortedNames names⟩

/-- The predicate is unconditional. -/
def isAlways (f : Features) : Bool := f.names.isEmpty

/-- The predicate holds when the given features are enabled. -/
def holds (f : Features) (enabled : String → Bool) : Bool := f.isAlways || f.names.any enabled

/-- Every name of the first predicate is one of the second. -/
def subset (f g : Features) : Bool := f.names.all g.names.contains

/-- Merges two gates on one declaration: the unconditional one gives way, and of two others the
narrower one is kept. -/
def merge? (f g : Features) : Except Failure Features :=
  if f.isAlways then .ok g
  else if g.isAlways then .ok f
  else if f.subset g then .ok f
  else if g.subset f then .ok g
  else .error (.incompatibleGates f.names g.names)

/-- Merges gates from the first to the last. -/
def combine? (gates : List Features) : Except Failure Features := gates.foldlM merge? always

end Features
end NodeSchema
