import NodeSchema.Failure

/-!
# TOML values

Of a document only its tables and strings matter; all other values are alike.  `changeTable`
follows a dotted key into tables, and into the last table of an array of tables.
-/

set_option autoImplicit false

namespace NodeSchema
namespace Toml

/-- Why a text is refused. -/
inductive Refusal
  /-- The text is no document. -/
  | malformed
  /-- The reader stopped at a fault of its own. -/
  | fault (fault : Fault)
deriving DecidableEq, Repr

/-- A value of a document. -/
inductive Value
  | string (s : String)
  | array (items : List Value)
  | table (entries : List (String × Value))
  /-- A number, a truth value, a date or a time. -/
  | scalar
deriving Repr

/-- The entries of a table. -/
abbrev Entries := List (String × Value)

/-- A reader of documents, which comes from elsewhere. -/
class DocumentReader where
  /-- The entries of the root table of a document. -/
  load : List Char → Except Refusal Entries

/-- A dotted key. -/
abbrev Key := List String

/-- The value under a name. -/
def find? (es : Entries) (name : String) : Option Value :=
  (es.find? fun e => e.1 = name).map Prod.snd

/-- The value is a table or an array. -/
def Value.isNest : Value → Bool
  | .array _ | .table _ => true
  | .string _ | .scalar => false

/-- Puts a value under a name. -/
def put (name : String) (value : Value) : Entries → Entries
  | [] => [(name, value)]
  | (n, v) :: rest => if n = name then (n, value) :: rest else (n, v) :: put name value rest

/-- Changes the last item of a list. -/
def changeLast (f : Value → Option Value) : List Value → Option (List Value)
  | [] => none
  | [v] => (f v).map fun w => [w]
  | v :: w :: rest => (changeLast f (w :: rest)).map (v :: ·)

/-- Changes the table that a key leads to; tables that are not there are made on the way.  With
`entersArrays`, a key that leads to an array of tables goes on in its last table. -/
def changeTable (entersArrays : Bool) (f : Entries → Option Entries) :
    Key → Entries → Option Entries
  | [], es => f es
  | name :: key, es =>
    match find? es name with
    | none => (changeTable entersArrays f key []).map fun t => put name (.table t) es
    | some (.table t) =>
      (changeTable entersArrays f key t).map fun t' => put name (.table t') es
    | some (.array items) =>
      if entersArrays then
        (changeLast (fun v => match v with
          | .table t => (changeTable entersArrays f key t).map .table
          | _ => none) items).map fun items' => put name (.array items') es
      else none
    | some _ => none

/-- Adds a table to the array of tables that a key leads to. -/
def appendTable (key : Key) (es : Entries) : Option Entries :=
  match key.getLast? with
  | none => none
  | some last =>
    changeTable true (fun t =>
      match find? t last with
      | none => some (put last (.array [.table []]) t)
      | some (.array items) => some (put last (.array (items ++ [.table []])) t)
      | some _ => none) key.dropLast es

/-- Enters a value under the last name of a key; there must be none. -/
def enter (entersArrays : Bool) (key : Key) (value : Value) (es : Entries) : Option Entries :=
  match key.getLast? with
  | none => none
  | some last =>
    changeTable entersArrays (fun t =>
      match find? t last with
      | none => some (put last value t)
      | some _ => none) key.dropLast es

end Toml
end NodeSchema
