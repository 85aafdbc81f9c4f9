import NodeSchema.Run

/-!
# The program

Reads the files of the crate, the log file and the output as they are, runs the command of the
command line on them, writes the files that it changed, and prints.
-/

set_option autoImplicit false

namespace NodeSchema
namespace Program

/-! ## Files -/

/-- The text of the path of a place. -/
def pathOf (place : List String) : String := "/" ++ "/".intercalate place

/-- Adds a directory. -/
def addDirectory (t : FileTree) (place : List String) : FileTree :=
  if t.hasDirectory place then t else { t with directories := t.directories ++ [place] }

/-- Adds a file, or a directory with all that is below it. -/
partial def loadAll (t : FileTree) (place : List String) : IO FileTree := do
  let path := (← IO.currentDir) / pathOf place
  if ← path.isDir then
    let mut tree := addDirectory t place
    for below in ← path.readDir do
      tree ← loadAll tree (place ++ [below.fileName])
    return tree
  else if ← path.pathExists then
    return t.put place (← IO.FS.readBinFile path).toList
  else return t

/-- Adds what is on the way to a place, and the file or directory of the place. -/
def loadPlace (t : FileTree) (place : List String) : IO FileTree := do
  let mut tree := t
  for here in (List.range (place.length + 1)).map place.take do
    let path := (← IO.currentDir) / pathOf here
    if ← path.isDir then
      tree := addDirectory tree here
    else if ← path.pathExists then
      tree := tree.put here (← IO.FS.readBinFile path).toList
  return tree

/-- Adds the crate at a path: the directory, or the one that the file at the path lies in. -/
def loadCrate (t : FileTree) (p : Path) : IO FileTree := do
  let tree ← loadPlace t p.parts
  loadAll tree (if tree.isDirectory p then p else p.parent).parts

/-- Writes the files that changed, and makes the directories that are new. -/
def save (before after : FileTree) : IO Unit := do
  for d in after.directories do
    if !before.hasDirectory d then IO.FS.createDirAll (pathOf d)
  for f in after.files do
    if before.file? f.1 ≠ some f.2 then
      IO.FS.writeBinFile (pathOf f.1) (ByteArray.mk f.2.toArray)

/-! ## Time -/

/-- The date and time now, in universal time, as it stands before a line of the log file.  The clock
is read off a file that is made for it. -/
def stamp : IO String := do
  let (_, path) ← IO.FS.createTempFile
  let now := (← path.metadata).modified
  IO.FS.removeFile path
  let seconds := now.sec.toNat
  let date := Date.ofDays (Date.daysBefore1970 + seconds / 86400)
  return date.text ++ " " ++ padded 2 (seconds / 3600 % 24) ++ ":" ++ padded 2 (seconds / 60 % 60)
    ++ ":" ++ padded 2 (seconds % 60) ++ "," ++ padded 3 (now.nsec.toNat / 1000000) ++ " "

/-! ## Running -/

/-- The places outside the crate that a command may write to. -/
def targets (c : Command) (t : FileTree) (cwd crate : Path) : List Path :=
  let output := match c.action, Config.load t crate with
    | .extract given _, .ok config => [(Run.outputPath config given).normal]
    | _, _ => []
  output ++ (c.logFile.map fun f => (cwd.join (.ofString f)).normal).toList

/-- The files that a command may read or write. -/
def load (c : Command) (cwd : Path) : IO FileTree := do
  let crate := (cwd.join (.ofString c.path)).normal
  let mut tree ← loadCrate ⟨[], []⟩ crate
  for target in targets c tree cwd crate do
    tree ← loadPlace tree target.parts
  return tree

/-- Runs a command line on the files that are there. -/
def run (arguments : List String) : IO UInt32 := do
  let cwd := Path.ofString (← IO.currentDir).toString
  let before ← match Command.ofArguments arguments with
    | .ok c => load c cwd
    | .error _ => pure ⟨[], []⟩
  let o := Outcome.ofArguments arguments before cwd (← stamp)
  save before o.tree
  IO.print o.output
  IO.eprint o.diagnostics
  match o.status with
  | .ok code => return code.toUInt32
  | .error fault =>
    IO.eprintln (Run.programName ++ ": " ++ reprStr fault)
    return 1

end Program
end NodeSchema

/-- Runs the command of a command line. -/
def main (arguments : List String) : IO UInt32 := NodeSchema.Program.run arguments
