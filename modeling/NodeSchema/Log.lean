import NodeSchema.Failure

/-!
# The log of a run

A run tells what it does as a list of events.  `Logged` is the result of a computation together
with the events up to its end, whether it succeeded or failed.
-/

set_option autoImplicit false

namespace NodeSchema

/-- What a run tells. -/
inductive Event
  | spellingsLoaded (count : Nat) (path : String)
  | moduleLoading (path : String)
  | moduleSkipped (name : String)
  | redeclared (ident : String)
  | collected (declarations aliases : Nat)
  | assembled (version : String) (types : Nat)
  | extracting (path : String)
deriving DecidableEq, Repr

namespace Event

/-- The stage of the run that tells an event. -/
def stage : Event → String
  | .spellingsLoaded _ _ => "tokens"
  | .moduleLoading _ | .moduleSkipped _ | .redeclared _ | .collected _ _ => "crawler"
  | .assembled _ _ => "schema"
  | .extracting _ => "extractor"

/-- The event is told only on request. -/
def isDetail : Event → Bool
  | .spellingsLoaded _ _ | .moduleLoading _ | .moduleSkipped _ | .redeclared _ => true
  | .collected _ _ | .assembled _ _ | .extracting _ => false

/-- The name of the event's level. -/
def level (e : Event) : String := if e.isDetail then "DEBUG" else "INFO"

/-- The wording of an event. -/
def message : Event → String
  | .spellingsLoaded n path =>
    "Loaded " ++ toString n ++ " token spellings from " ++ path
  | .moduleLoading path => "Loading " ++ path
  | .moduleSkipped name => "Skipping generated module " ++ name
  | .redeclared ident => "Redeclaration of " ++ ident ++ " replaces the earlier one"
  | .collected n m =>
    "Collected " ++ toString n ++ " declarations and " ++ toString m ++ " aliases"
  | .assembled version n =>
    "Assembled schema " ++ version ++ " with " ++ toString n ++ " types"
  | .extracting path => "Extracting schema from " ++ path

end Event

/-- The result of a computation, and the events up to its end. -/
structure Logged (α : Type) where
  result : Except Failure α
  events : List Event
deriving Repr

namespace Logged

variable {α β : Type}

/-- A result without events. -/
def ofExcept (r : Except Failure α) : Logged α := ⟨r, []⟩

/-- Goes on with the result of a computation that succeeded. -/
def andThen (x : Logged α) (f : α → Logged β) : Logged β :=
  match x.result with
  | .ok a => ⟨(f a).result, x.events ++ (f a).events⟩
  | .error e => ⟨.error e, x.events⟩

instance : Monad Logged where
  pure a := ⟨.ok a, []⟩
  bind := andThen

/-- Tells an event. -/
def tell (e : Event) : Logged Unit := ⟨.ok (), [e]⟩

/-- Ends with a failure. -/
def fail (e : Failure) : Logged α := ⟨.error e, []⟩

end Logged
end NodeSchema
