/-!
# Paths

A path is a list of names, from the root or from the current directory.  Empty names and single
dots are dropped when a path is read from text; double dots are kept, because what they mean
depends on the files.  `Path.normal` reads them by the names alone.
-/

set_option autoImplicit false

namespace NodeSchema

/-- A path. -/
structure Path where
  isAbsolute : Bool
  parts : List String
deriving DecidableEq, Repr

namespace Path

/-- Cuts characters at every slash; `part` holds those since the last cut, in reverse. -/
def splitSlashes : List Char → List Char → List (List Char)
  | part, [] => [part.reverse]
  | part, c :: rest =>
    if c = '/' then part.reverse :: splitSlashes [] rest else splitSlashes (c :: part) rest

/-- Reads a path from text. -/
def ofString (text : String) : Path :=
  let cs := text.toList
  ⟨cs.head? = some '/',
    ((splitSlashes [] cs).filter fun p => !p.isEmpty && p ≠ ['.']).map String.ofList⟩

/-- The text of a path; the empty relative path is a single dot. -/
def toString (p : Path) : String :=
  let joined := "/".intercalate p.parts
  if p.isAbsolute then "/" ++ joined else if p.parts.isEmpty then "." else joined

/-- The path without its last name. -/
def parent (p : Path) : Path := { p with parts := p.parts.dropLast }

/-- The last name of a path. -/
def name (p : Path) : String := p.parts.getLast?.getD ""

/-- The second path, taken from the first if it is relative. -/
def join (p q : Path) : Path :=
  if q.isAbsolute then q else { p with parts := p.parts ++ q.parts }

/-- Drops every name that a double dot follows; `before` holds the names so far, in reverse. -/
def normalParts : List String → List String → List String
  | before, [] => before.reverse
  | before, n :: rest =>
    if n = ".." then normalParts before.tail rest else normalParts (n :: before) rest

/-- An absolute path without double dots, by its names alone. -/
def normal (p : Path) : Path := { p with parts := normalParts [] p.parts }

/-- The path from a directory that a path lies in. -/
def relativeTo? (p directory : Path) : Option Path :=
  if p.isAbsolute = directory.isAbsolute && directory.parts.isPrefixOf p.parts then
    some ⟨false, p.parts.drop directory.parts.length⟩
  else none

end Path
end NodeSchema
