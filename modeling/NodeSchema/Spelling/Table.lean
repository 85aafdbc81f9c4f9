import NodeSchema.Log
import NodeSchema.Spelling.File
import NodeSchema.Table
import NodeSchema.Text.Newlines
import NodeSchema.Text.PathName

/-!
# Tables of spellings

The table maps the spelling of a token to its symbol.  It is written as rules
`[spelling] => { $path }` with semicolons between them; the symbol is the last name of the path.
A later rule for a spelling replaces an earlier one.

`invert` turns a table around: it is refused if two spellings have the same symbol.
-/

set_option autoImplicit false

namespace NodeSchema
namespace Spelling

/-! ## Rules -/

/-- The last name of a path. -/
def lastName (path : String) : String := String.ofList (Text.lastPart path.toList)

/-- The path that the expansion of a rule names. -/
def targetOf (expansion : String) : Option String :=
  match expansion.toList with
  | '$' :: path => if Text.isPath (String.ofList path) then some (String.ofList path) else none
  | _ => none

/-- Reads the rule that begins at an index: its spelling, its symbol, and the index after it. -/
def rule (f : File) (index : Nat) : Except Failure (String × String × Nat) := do
  if !f.isText index "[" then .error (f.complain index (.expected "["))
  else
    let close ← f.closing index
    let spelling := f.render (index + 1) close
    let arrow := close + 1
    if !(f.isText arrow "=" && f.isText (arrow + 1) ">") then
      .error (f.complain arrow (.expected "=>"))
    else
      let brace := arrow + 2
      if !f.isText brace "\x7b" then .error (f.complain brace (.expected "\x7b"))
      else
        let stop ← f.closing brace
        match targetOf (f.render (brace + 1) stop) with
        | none => .error (f.complain brace .expectedTokenPath)
        | some path => .ok (spelling, lastName path, stop + 1)

/-- Reads rules from an index up to `stop`. -/
def rulesFrom (f : File) (stop : Nat) : Nat → Nat → Table String → Except Failure (Table String)
  | 0, _, table => .ok table
  | fuel + 1, index, table =>
    if index < stop then do
      let (spelling, symbol, after) ← rule f index
      let table := table.insert spelling symbol
      if after < stop then
        if f.isText after ";" then rulesFrom f stop fuel (after + 1) table
        else .error (f.complain after (.expected ";"))
      else .ok table
    else .ok table

/-- Reads the rules from one index up to another.  Every rule takes a lexeme, so as many rules as
lexemes are enough. -/
def rules (f : File) (start stop : Nat) : Except Failure (Table String) :=
  rulesFrom f stop (stop - start) start .empty

/-! ## Files -/

/-- The table that a spelling file holds. -/
def ofFile (f : File) : Except Failure (Table String) := do
  match ← f.findTable with
  | some (start, stop) => rules f start stop
  | none => .error (.noSpellingTable f.path)

/-- Reads the table from the bytes of a file. -/
def load (path : String) (bytes : List UInt8) : Logged (Table String) :=
  match Text.readText? bytes with
  | none => .fail (.unreported .notUtf8)
  | some text => do
    let table ← Logged.ofExcept (ofFile (.ofText path text))
    Logged.tell (.spellingsLoaded table.size path)
    pure table

/-! ## Inverting -/

/-- Enters an entry among entries in the order of their names. -/
def insertSorted {α : Type} (entry : String × α) : List (String × α) → List (String × α)
  | [] => [entry]
  | e :: es => if entry.1 < e.1 then entry :: e :: es else e :: insertSorted entry es

/-- Entries in the order of their names; entries of one name keep their order. -/
def sortEntries {α : Type} (es : List (String × α)) : List (String × α) :=
  es.foldl (fun sorted e => insertSorted e sorted) []

/-- Enters symbols with their spellings one after the other. -/
def invertFrom (inverted : Table String) : List (String × String) → Except Failure (Table String)
  | [] => .ok inverted
  | (spelling, symbol) :: rest =>
    match inverted.find? symbol with
    | some other =>
      if other = spelling then invertFrom inverted rest
      else .error (.twoSpellings symbol other spelling)
    | none => invertFrom (inverted.insert symbol spelling) rest

/-- The table from symbols to spellings, in the order of the symbols. -/
def invert (table : Table String) : Except Failure (Table String) :=
  (invertFrom .empty table.entries).map fun t => ⟨sortEntries t.entries⟩

end Spelling
end NodeSchema
