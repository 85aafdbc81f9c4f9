import NodeSchema.CommandLine
import NodeSchema.Extraction
import NodeSchema.Host
import NodeSchema.Rust.Grammar.File
import NodeSchema.Toml.Document
import NodeSchema.Yaml.Document

/-!
# Running commands

`Command.run` runs a command on a tree of files, in a current directory.  Everything is computed
before the one file is written, so a run that fails changes no file, the log apart.

The schema is written to the given or configured output, relative to the crate; a single dash
stands for the printed output.  With `isCheck` the output is compared instead: its text has to be
that of the schema, whatever its line ends are.

Failures are printed as diagnostics, and the status is 1; faults that no command reports end the run
without a status.

`Outcome.ofArguments` is the whole program: it reads a command line and runs the command.
-/

set_option autoImplicit false

namespace NodeSchema

/-- What a run leads to. -/
structure Outcome where
  tree : FileTree
  /-- The exit status, or the fault that ended the run. -/
  status : Except Fault Nat
  output : String
  diagnostics : String

namespace Run

variable [Host] [Rust.FileParser] [Yaml.DocumentReader] [Toml.DocumentReader]

/-- The name that diagnostics and the log are told under. -/
def programName : String := "astschema"

/-! ## The log -/

/-- An event on the console. -/
def consoleLine (e : Event) : String :=
  programName ++ "[" ++ e.stage ++ "] " ++ e.level ++ " " ++ e.message ++ "\n"

/-- An event in a log file, after the stamp of its time. -/
def fileLine (stamp : String) (e : Event) : String :=
  stamp ++ e.level ++ " " ++ programName ++ "." ++ e.stage ++ ": " ++ e.message ++ "\n"

/-- The events that are told. -/
def told (isVerbose : Bool) (events : List Event) : List Event :=
  events.filter fun e => isVerbose || !e.isDetail

/-- The bytes of a text. -/
def bytesOf (text : String) : List UInt8 := text.toUTF8.toList

/-- Adds text to the end of a file, which is made if it is not there. -/
def append (tree : FileTree) (p : Path) (text : String) : Except Fault FileTree :=
  if FileTree.isAskable p then
    let before := match tree.read p with
      | .ok bytes => bytes
      | .error _ => []
    match tree.write p (before ++ bytesOf text) with
    | .ok t => .ok t
    | .error fault => .error (.file fault)
  else .error .badValue

/-- Adds text to the log file, if there is one. -/
def appendLog (tree : FileTree) (log : Option Path) (text : String) : Except Fault FileTree :=
  match log with
  | some p => append tree p text
  | none => .ok tree

/-! ## Output -/

/-- A path as it is shown: relative to the current directory if it lies in it. -/
def shown (cwd p : Path) : String := ((p.relativeTo? cwd).getD p).toString

/-- The run ends with a fault. -/
def stop (tree : FileTree) (log : String) (fault : Fault) : Outcome := ⟨tree, .error fault, "", log⟩

/-- The run ends well if its output can be printed. -/
def finish (tree : FileTree) (log output : String) : Outcome :=
  match Host.print output with
  | .ok () => ⟨tree, .ok 0, output, log⟩
  | .error fault => stop tree log fault

/-- The run ends with a diagnostic. -/
def reject (tree : FileTree) (log message : String) : Outcome :=
  ⟨tree, .ok 1, "", log ++ message ++ "\n"⟩

/-- The run ends with a failure. -/
def fail (tree : FileTree) (log : String) (f : Failure) : Outcome :=
  match f with
  | .unreported fault => stop tree log fault
  | f => reject tree log (programName ++ ": " ++ f.message)

/-- Compares the text of a file with a text; a file that is not there differs.  A name that is too
long cannot be looked up. -/
def isCurrent (tree : FileTree) (p : Path) (text : String) : Except Failure Bool :=
  match FileTree.isAskable p, tree.place p with
  | true, .error .nameTooLong => .error (.unreported (.file .nameTooLong))
  | _, _ =>
    if tree.has p then (tree.readText p).map fun cs => decide (cs = text.toList) else .ok false

/-- Writes a text to a file, and makes the directories above it, which stay when the file cannot be
written. -/
def writeText (tree : FileTree) (p : Path) (text : String) : FileTree × Except Fault Unit :=
  if FileTree.isAskable p.parent then
    match tree.makeAllDirectories p.parent with
    | (t, .error fault) => (t, .error (.file fault))
    | (t, .ok ()) =>
      if FileTree.isAskable p then
        match t.write p (bytesOf text) with
        | .ok t' => (t', .ok ())
        | .error fault => (t, .error (.file fault))
      else (t, .error .badValue)
  else (tree, .error .badValue)

/-- The path that the schema is written to. -/
def outputPath (c : Config) (given : Option String) : Path :=
  match given with
  | some o => if o.isEmpty then c.outputPath else c.path o
  | none => c.outputPath

/-- Tells that the output of the given name is written. -/
def writtenLine (name : String) : String := "Schema written to " ++ name ++ "\n"

/-- Tells that the output of the given name is up to date. -/
def currentLine (name : String) : String := name ++ " is up to date\n"

/-- Ends a run that has an output by telling of it; how it is shown depends on the current
directory. -/
def tell (tree : FileTree) (cwd p : Path) (log : String) (ending : String → Outcome) : Outcome :=
  match Host.directory with
  | .ok () => ending (shown cwd p)
  | .error fault => stop tree log fault

/-- Deals with the text of a schema. -/
def deliver (tree : FileTree) (cwd : Path) (log : String) (c : Config) (given : Option String)
    (isCheck : Bool) (text : String) : Outcome :=
  let p := outputPath c given
  if given = some "-" then finish tree log text
  else if isCheck then
    match isCurrent tree p text with
    | .error f => fail tree log f
    | .ok true => tell tree cwd p log fun name => finish tree log (currentLine name)
    | .ok false => tell tree cwd p log fun name => reject tree log (name ++ " is out of date")
  else
    match writeText tree p text with
    | (t, .error fault) => stop t log fault
    | (t, .ok ()) => tell t cwd p log fun name => finish t log (writtenLine name)

/-! ## Actions -/

/-- The spellings in the order of their symbols, one a line. -/
def listing (spellings : Table String) : String :=
  let byName := Spelling.sortEntries (spellings.entries.map fun e => (e.2, e.1))
  String.join (byName.map fun e => e.1 ++ " " ++ e.2 ++ "\n")

/-- The text that an action computes. -/
def compute (x : Extraction) : Action → Logged String
  | .extract _ _ => x.text
  | .tokens => do
    let spellings ← x.spellings
    pure (listing spellings)

end Run

open Run

namespace Command

variable [Host] [Rust.FileParser] [Yaml.DocumentReader] [Toml.DocumentReader]

/-- The path of the log. -/
def logPath (c : Command) (cwd : Path) : Except Fault (Option Path) :=
  match c.logFile with
  | none => .ok none
  | some f => (Path.absolute cwd (.ofString f)).map fun p => some p.normal

/-- The path of the crate. -/
def cratePath (c : Command) (cwd : Path) : Except Fault Path :=
  (Path.ofString c.path).expanded >>= Path.absolute cwd

/-- Opens the log: its path, and the tree that it is in. -/
def openLog (c : Command) (tree : FileTree) (cwd : Path) :
    Except Fault (Option Path × FileTree) := do
  let log ← c.logPath cwd
  let opened ← appendLog tree log ""
  .ok (log, opened)

/-- Runs a command; `stamp` stands before the lines of the log file. -/
def run (c : Command) (tree : FileTree) (cwd : Path) (stamp : String) : Outcome :=
  match c.openLog tree cwd with
  | .error fault => stop tree "" fault
  | .ok (log, opened) =>
    match c.cratePath cwd with
    | .error fault => stop opened "" fault
    | .ok path =>
      match Extraction.ofPath opened path with
      | .error f => fail opened "" f
      | .ok x =>
        let computed := compute x c.action
        let events := told c.isVerbose computed.events
        let lines := String.join (events.map consoleLine)
        match appendLog opened log (String.join (events.map (fileLine stamp))) with
        | .error fault => stop opened lines fault
        | .ok tree =>
          match computed.result, c.action with
          | .error f, _ => fail tree lines f
          | .ok text, .tokens => finish tree lines text
          | .ok text, .extract output isCheck =>
            deliver tree cwd lines x.config output isCheck text

end Command

/-! ## Command lines -/

/-- How to use the program. -/
def Run.help : String :=
  "usage: astschema [-h] [-v] [--log-file FILE] \x7bextract,tokens\x7d ...\n\n" ++
  "Extract a machine-readable schema of a syntax-tree crate's node types.\n\n" ++
  "  extract [-v] [-o OUTPUT] [--check] [PATH]  write the node schema as JSON\n" ++
  "  tokens [-v] [PATH]                         print the token spelling table\n"

/-- What a command line leads to.  One that gives no command changes nothing. -/
def Outcome.ofArguments [Host] [Rust.FileParser] [Yaml.DocumentReader] [Toml.DocumentReader]
    (arguments : List String) (tree : FileTree) (cwd : Path) (stamp : String) : Outcome :=
  match Command.ofArguments arguments with
  | .ok c => c.run tree cwd stamp
  | .error .help => ⟨tree, .ok 0, Run.help, ""⟩
  | .error .usage => ⟨tree, .ok 2, "", Run.help⟩

end NodeSchema
