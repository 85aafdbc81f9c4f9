import NodeSchema.Failure
import NodeSchema.Path
import NodeSchema.Text.Newlines

/-!
# Trees of files

A tree of files lists its files and its directories by their names from the root.  Paths are looked
up name by name: a name that is followed by another must be a directory, and a double dot leads to
the directory above the one reached so far.

The operations are `read`, `write` and `makeDirectories`; a file that is written replaces the one
of its place (`file?_put`).
-/

set_option autoImplicit false

namespace NodeSchema

/-- The files and directories below the root. -/
structure FileTree where
  files : List (List String × List UInt8)
  directories : List (List String)
deriving DecidableEq, Repr

namespace FileTree

/-! ## Looking up -/

/-- The bytes of the file of a place. -/
def file? (t : FileTree) (place : List String) : Option (List UInt8) :=
  (t.files.find? fun f => f.1 = place).map Prod.snd

/-- The place is a directory. -/
def hasDirectory (t : FileTree) (place : List String) : Bool :=
  place.isEmpty || t.directories.contains place

/-- The most bytes of a name. -/
def maxNameLength : Nat := 255

/-- The place that names lead to from a directory.  The last name may be of something that is not
there. -/
def placeFrom (t : FileTree) (current : List String) : List String →
    Except FileFault (List String)
  | [] => .ok current
  | name :: rest =>
    if name = ".." then placeFrom t current.dropLast rest
    else if maxNameLength < name.utf8ByteSize then .error .nameTooLong
    else
      let next := current ++ [name]
      match rest with
      | [] => .ok next
      | _ :: _ =>
        if t.hasDirectory next then placeFrom t next rest
        else if (t.file? next).isSome then .error .notDirectory
        else .error .missing

/-- The place that an absolute path leads to. -/
def place (t : FileTree) (p : Path) : Except FileFault (List String) := t.placeFrom [] p.parts

/-- A path with a zero character names nothing, and cannot be asked for. -/
def isAskable (p : Path) : Bool := p.parts.all fun n => !n.toList.contains (Char.ofNat 0)

/-- The path leads to a directory. -/
def isDirectory (t : FileTree) (p : Path) : Bool :=
  match t.place p with
  | .ok place => t.hasDirectory place
  | .error _ => false

/-- The path leads to a file or directory. -/
def has (t : FileTree) (p : Path) : Bool :=
  match t.place p with
  | .ok place => t.hasDirectory place || (t.file? place).isSome
  | .error _ => false

/-- The bytes of the file that a path leads to. -/
def read (t : FileTree) (p : Path) : Except FileFault (List UInt8) :=
  match t.place p with
  | .error fault => .error fault
  | .ok place =>
    if t.hasDirectory place then .error .isDirectory
    else
      match t.file? place with
      | some bytes => .ok bytes
      | none => .error .missing

/-- The text of a file that is no source text. -/
def readText (t : FileTree) (path : Path) : Except Failure (List Char) :=
  if isAskable path then
    match t.read path with
    | .error fault => .error (.unreported (.file fault))
    | .ok bytes =>
      match Text.readText? bytes with
      | some text => .ok text
      | none => .error (.unreported .notUtf8)
  else .error (.unreported .badValue)

/-! ## Changing -/

/-- Puts a file in its place. -/
def putInto (place : List String) (bytes : List UInt8) :
    List (List String × List UInt8) → List (List String × List UInt8)
  | [] => [(place, bytes)]
  | (p, b) :: rest => if p = place then (p, bytes) :: rest else (p, b) :: putInto place bytes rest

/-- Puts a file in its place. -/
def put (t : FileTree) (place : List String) (bytes : List UInt8) : FileTree :=
  { t with files := putInto place bytes t.files }

/-- Writes the file that a path leads to; its directory must be there. -/
def write (t : FileTree) (p : Path) (bytes : List UInt8) : Except FileFault FileTree :=
  match t.place p with
  | .error fault => .error fault
  | .ok place =>
    if t.hasDirectory place then .error .isDirectory
    else if t.hasDirectory place.dropLast then .ok (t.put place bytes)
    else if (t.file? place.dropLast).isSome then .error .notDirectory
    else .error .missing

/-- Makes one directory; it must not be there, and the one above it must. -/
def makeDirectory (t : FileTree) (p : Path) : Except FileFault FileTree :=
  match t.place p with
  | .error fault => .error fault
  | .ok place =>
    if t.hasDirectory place || (t.file? place).isSome then .error .alreadyExists
    else if t.hasDirectory place.dropLast then
      .ok { t with directories := t.directories ++ [place] }
    else if (t.file? place.dropLast).isSome then .error .notDirectory
    else .error .missing

/-- Makes a directory and those above it, as far as they are not there; `size` is the number of
names of the path.  The directories that were made stay when one cannot be made. -/
def makeDirectoriesFrom : Nat → FileTree → Path → FileTree × Except FileFault Unit
  | 0, t, _ => (t, .ok ())
  | size + 1, t, p =>
    let allow (t : FileTree) (r : Except FileFault FileTree) : FileTree × Except FileFault Unit :=
      match r with
      | .ok t' => (t', .ok ())
      | .error fault => (t, if t.isDirectory p then .ok () else .error fault)
    match t.makeDirectory p with
    | .error .missing =>
      match makeDirectoriesFrom size t p.parent with
      | (t', .ok ()) => allow t' (t'.makeDirectory p)
      | r => r
    | r => allow t r

/-- Makes a directory and those above it, as far as they are not there. -/
def makeAllDirectories (t : FileTree) (p : Path) : FileTree × Except FileFault Unit :=
  makeDirectoriesFrom p.parts.length t p

/-- The tree with a directory and those above it, if all of them can be made. -/
def makeDirectories (t : FileTree) (p : Path) : Except FileFault FileTree :=
  (t.makeAllDirectories p).2.map fun () => (t.makeAllDirectories p).1

/-- Takes a file away. -/
def remove (t : FileTree) (place : List String) : FileTree :=
  { t with files := t.files.filter fun f => f.1 ≠ place }

/-- The directories above a place. -/
def above (place : List String) : List (List String) :=
  (List.range place.length).map place.take

/-- Puts a file in its place together with the directories above it. -/
def putWithDirectories (t : FileTree) (place : List String) (bytes : List UInt8) : FileTree :=
  let new := (above place).filter fun d => !t.hasDirectory d
  { t.put place bytes with directories := t.directories ++ new }

/-! ## What changes -/

theorem find?_putInto (place other : List String) (bytes : List UInt8)
    (fs : List (List String × List UInt8)) :
    ((putInto place bytes fs).find? fun f => f.1 = other).map Prod.snd =
      if place = other then some bytes else (fs.find? fun f => f.1 = other).map Prod.snd := by
  induction fs with
  | nil => by_cases h : place = other <;> simp [putInto, h]
  | cons f rest ih =>
    obtain ⟨p, b⟩ := f
    by_cases hp : p = place
    · subst hp; by_cases h : p = other <;> simp [putInto, h]
    · by_cases h : p = other
      · subst h; simp [putInto, hp, Ne.symm hp]
      · simp [putInto, hp, h, ih]

/-- Putting a file changes the bytes of its place, and of no other. -/
theorem file?_put (t : FileTree) (place other : List String) (bytes : List UInt8) :
    (t.put place bytes).file? other = if place = other then some bytes else t.file? other :=
  find?_putInto place other bytes t.files

end FileTree
end NodeSchema
