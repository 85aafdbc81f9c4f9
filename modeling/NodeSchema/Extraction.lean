import NodeSchema.Config
import NodeSchema.Manifest
import NodeSchema.Schema.Json

/-!
# Extracting the schema of a crate

An extraction loads the spellings of the tokens, crawls the crate from its root file, finds its
version, and assembles the schema of what was found.  It reads files and changes none.
-/

set_option autoImplicit false

namespace NodeSchema

/-- A crate whose configuration is known, in a tree of files. -/
structure Extraction where
  tree : FileTree
  config : Config
deriving Repr

namespace Extraction

variable [Rust.FileParser] [Yaml.DocumentReader] [Toml.DocumentReader]

/-- The extraction of the crate that a path leads to. -/
def ofPath (tree : FileTree) (p : Path) : Except Failure Extraction :=
  let p := p.normal
  if !FileTree.isAskable p then .error (.unreported .badValue)
  else if tree.has p then (Config.load tree p).map fun c => ⟨tree, c⟩
  else .error (.crateMissing p.toString)

/-- The crate that is crawled. -/
def crate (x : Extraction) : Crate := ⟨x.tree, x.config.root, x.config.crawl⟩

/-- Loads the spellings of the tokens. -/
def spellings (x : Extraction) : Logged (Table String) :=
  let path := x.config.tokenFilePath
  let shown := x.config.tokenFile
  if FileTree.isAskable path then
    match x.tree.read path with
    | .ok bytes => Spelling.load (Path.ofString shown).toString bytes
    | .error fault => .fail (.unreadableSpellings shown fault path.toString)
  else .fail (.unreported .badValue)

/-- The version of the schema: the configured one, unless it is empty, or that of the crate. -/
def version (x : Extraction) : Except Failure String :=
  match x.config.version with
  | some v => if v.isEmpty then Manifest.version x.tree x.config.manifestPath else .ok v
  | none => Manifest.version x.tree x.config.manifestPath

/-- Extracts the schema. -/
def run (x : Extraction) : Logged Definitions := do
  Logged.tell (.extracting x.config.crateRootPath.toString)
  let tokens ← x.spellings
  let found ← x.crate.crawl (.ofString x.config.crateRoot)
  let version ← Logged.ofExcept x.version
  found.assemble tokens x.config.leaves version

/-- Extracts the text of the schema. -/
def text (x : Extraction) : Logged String := do
  let d ← x.run
  Logged.ofExcept d.print

end Extraction
end NodeSchema
