import NodeSchema.Failure
import NodeSchema.Spelling.Lexeme

/-!
# Spelling files

A spelling file is a text cut into lexemes.  Places in it are indices of lexemes.  `closing` finds
the delimiter that closes a group, and `findTable` the macro that holds the table: the first one of
its name that stands in no group.
-/

set_option autoImplicit false

namespace NodeSchema
namespace Spelling

/-- A text with its lexemes, and the path it is shown under. -/
structure File where
  path : String
  text : List Char
  lexemes : List Lexeme
deriving Repr

/-- The delimiter that closes a group. -/
def closerOf (opener : String) : Option String :=
  if opener = "(" then some ")" else if opener = "[" then some "]"
  else if opener = "\x7b" then some "\x7d" else none

/-- The text is a closing delimiter. -/
def isCloser (text : String) : Bool := text = ")" || text = "]" || text = "\x7d"

/-- Finds the closing delimiter of the innermost group among lexemes of which the first has the
given index; `stack` holds the delimiters that are due, the innermost first. -/
def closingFrom (stack : List String) (index : Nat) :
    List Lexeme → Except (Option (Nat × String)) Nat
  | [] => .error none
  | l :: ls =>
    if l.kind = .punct then
      match closerOf l.text with
      | some due => closingFrom (due :: stack) (index + 1) ls
      | none =>
        if isCloser l.text then
          match stack with
          | [] => .error (some (index, l.text))
          | due :: stack' =>
            if l.text = due then
              match stack' with
              | [] => .ok index
              | _ :: _ => closingFrom stack' (index + 1) ls
            else .error (some (index, l.text))
        else closingFrom stack (index + 1) ls
    else closingFrom stack (index + 1) ls

namespace File

/-- The file of a text. -/
def ofText (path : String) (text : List Char) : File := ⟨path, text, Spelling.lexemes text⟩

/-- Where the lexeme of an index begins; past the last one, the end of the text. -/
def offset (f : File) (index : Nat) : Nat :=
  match f.lexemes[index]? with
  | some l => l.offset
  | none => f.text.length

/-- A complaint about the lexeme of an index. -/
def complain (f : File) (index : Nat) (complaint : Complaint) : Failure :=
  .located f.path (.inChars f.text (f.offset index)) complaint

/-- The lexeme of an index has the given text. -/
def isText (f : File) (index : Nat) (text : String) : Bool :=
  match f.lexemes[index]? with
  | some l => l.text = text
  | none => false

/-- The lexemes from one index up to another, run together. -/
def render (f : File) (start stop : Nat) : String :=
  String.join (((f.lexemes.take stop).drop start).map Lexeme.text)

/-- The index of the delimiter that closes the group opened at an index. -/
def closing (f : File) (start : Nat) : Except Failure Nat :=
  match (f.lexemes[start]?).bind fun l => closerOf l.text with
  | none => .error (f.complain start .unclosedDelimiter)
  | some due =>
    match closingFrom [due] (start + 1) (f.lexemes.drop (start + 1)) with
    | .ok r => .ok r
    | .error none => .error (f.complain start .unclosedDelimiter)
    | .error (some (index, text)) => .error (f.complain index (.unexpectedCloser text))

/-- The name of the macro that holds the table. -/
def tableMacro : String := "Token"

/-- The table begins with the lexeme of an index: the definition of the macro. -/
def beginsTable (f : File) (index : Nat) : Bool :=
  f.isText index "macro_rules" && f.isText (index + 1) "!" && f.isText (index + 2) tableMacro
    && ((f.lexemes[index + 3]?).bind fun l => closerOf l.text).isSome

/-- Looks for the table among lexemes of which the first has the given index, first passing over
the `skip` lexemes of the group before. -/
def findTableFrom (f : File) : Nat → Nat → List Lexeme → Except Failure (Option (Nat × Nat))
  | _, _, [] => .ok none
  | skip + 1, index, _ :: rest => findTableFrom f skip (index + 1) rest
  | 0, index, l :: rest =>
    if f.beginsTable index then
      (f.closing (index + 3)).map fun stop => some (index + 4, stop)
    else if l.kind = .punct && (closerOf l.text).isSome then
      match f.closing index with
      | .ok stop => findTableFrom f (stop - index) (index + 1) rest
      | .error e => .error e
    else findTableFrom f 0 (index + 1) rest

/-- The lexemes of the table: from the first index up to the second. -/
def findTable (f : File) : Except Failure (Option (Nat × Nat)) := f.findTableFrom 0 0 f.lexemes

end File
end Spelling
end NodeSchema
