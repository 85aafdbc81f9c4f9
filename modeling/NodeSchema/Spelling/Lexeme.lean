import NodeSchema.Text.Blank
import NodeSchema.Text.WordChar

/-!
# Lexemes of a spelling file

The file that spells out tokens is cut into lexemes of its own.  Blanks and comments separate
lexemes; a string, comment or character that does not end is no such thing, and its first
character stands alone.  Block comments do not nest.

`measure` decides the class and the length of the piece that begins at a character, and `scan`
applies it from the front to the end.  The pieces concatenate to the text (`flatten_scan`).
-/

set_option autoImplicit false

namespace NodeSchema
namespace Spelling

open Text

/-- The classes of pieces. -/
inductive PieceKind
  | blank
  | comment
  | string
  | char
  | lifetime
  | ident
  | number
  | punct
deriving DecidableEq, Repr

/-- The name of a class. -/
def PieceKind.name : PieceKind → String
  | .blank => "space"
  | .comment => "comment"
  | .string => "string"
  | .char => "char"
  | .lifetime => "lifetime"
  | .ident => "ident"
  | .number => "number"
  | .punct => "punct"

/-- The class separates lexemes and is none. -/
def PieceKind.isTrivia : PieceKind → Bool
  | .blank | .comment => true
  | _ => false

/-- A piece of a text and the number of characters before it. -/
structure Lexeme where
  kind : PieceKind
  text : String
  offset : Nat
deriving DecidableEq, Repr

/-! ## The length of a piece -/

/-- How long a block comment goes on. -/
def commentTail : List Char → Option Nat
  | '*' :: '/' :: _ => some 2
  | _ :: rest => (commentTail rest).map (· + 1)
  | [] => none

/-- How long a string goes on, its closing quote included. -/
def stringTail : List Char → Option Nat
  | '\\' :: _ :: rest => (stringTail rest).map (· + 2)
  | c :: rest =>
    if c = '"' then some 1
    else if c = '\\' then none
    else (stringTail rest).map (· + 1)
  | [] => none

/-- How long a character goes on after its first quote. -/
def charTail : List Char → Option Nat
  | '\\' :: _ :: '\'' :: _ => some 3
  | c :: '\'' :: _ => if c = '\'' || c = '\\' then none else some 2
  | _ => none

/-- The number of word characters at the front. -/
def wordRun (cs : List Char) : Nat := (cs.takeWhile isWordChar).length

/-- The string or character that begins with `c`, which may have a `b` in front. -/
def measureQuoted (c : Char) (rest : List Char) : Option (PieceKind × Nat) :=
  match c, rest with
  | '"', _ => (stringTail rest).map fun n => (.string, n + 1)
  | '\'', _ => (charTail rest).map fun n => (.char, n + 1)
  | 'b', '"' :: more => (stringTail more).map fun n => (.string, n + 2)
  | 'b', '\'' :: more => (charTail more).map fun n => (.char, n + 2)
  | _, _ => none

/-- The comment that begins with `c`. -/
def measureComment (c : Char) (rest : List Char) : Option (PieceKind × Nat) :=
  match c, rest with
  | '/', '/' :: more => some (.comment, 2 + (more.takeWhile (· ≠ '\n')).length)
  | '/', '*' :: more => (commentTail more).map fun n => (.comment, n + 2)
  | _, _ => none

/-- The lifetime, name or number that begins with `c`. -/
def measureWord (c : Char) (rest : List Char) : Option (PieceKind × Nat) :=
  match c, rest with
  | '\'', s :: more => if isNameStart s then some (.lifetime, 2 + wordRun more) else none
  | 'r', '#' :: s :: more =>
    if isNameStart s then some (.ident, 3 + wordRun more) else some (.ident, 1)
  | _, _ =>
    if isNameStart c then some (.ident, 1 + wordRun rest)
    else if c.isDigit then some (.number, 1 + wordRun rest)
    else none

/-- The class and the length of the piece that begins with `c`. -/
def measure (c : Char) (rest : List Char) : PieceKind × Nat :=
  if isBlank c then (.blank, 1 + (rest.takeWhile isBlank).length)
  else
    (((measureComment c rest).or (measureQuoted c rest)).or (measureWord c rest)).getD (.punct, 1)

/-! ## Whole texts -/

/-- Cuts a text into pieces, first passing over the `skip` characters of the piece before. -/
def scanAfter : Nat → Nat → List Char → List Lexeme
  | _, _, [] => []
  | skip + 1, offset, _ :: rest => scanAfter skip (offset + 1) rest
  | 0, offset, c :: rest =>
    let (kind, n) := measure c rest
    ⟨kind, String.ofList (c :: rest.take (n - 1)), offset⟩ :: scanAfter (n - 1) (offset + 1) rest

/-- Cuts a text into pieces. -/
def scan (cs : List Char) : List Lexeme := scanAfter 0 0 cs

/-- The lexemes of a text: its pieces without blanks and comments. -/
def lexemes (cs : List Char) : List Lexeme := (scan cs).filter fun l => !l.kind.isTrivia

/-! ## Nothing is lost -/

/-- The text of pieces. -/
def flatten (ls : List Lexeme) : List Char := ls.flatMap fun l => l.text.toList

theorem flatten_scanAfter (cs : List Char) : ∀ skip offset,
    flatten (scanAfter skip offset cs) = cs.drop skip := by
  induction cs with
  | nil => intro skip offset; simp [scanAfter, flatten]
  | cons c rest ih =>
    intro skip offset
    cases skip with
    | succ skip => simpa [scanAfter] using ih skip (offset + 1)
    | zero =>
      have := ih ((measure c rest).2 - 1) (offset + 1)
      simp only [flatten] at this
      simp [scanAfter, flatten, this, List.take_append_drop]

/-- The pieces of a text concatenate to it. -/
theorem flatten_scan (cs : List Char) : flatten (scan cs) = cs := by
  simp [scan, flatten_scanAfter]

end Spelling
end NodeSchema
