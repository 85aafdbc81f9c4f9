import NodeSchema.Crawl
import NodeSchema.Yaml.Reader

/-!
# Configuration

A crate may hold a configuration file, which tells where its files are and how it is crawled.  What
the file does not tell keeps its default, and so does a path that is empty.

Where a text is due, a string, a number or a truth value gives its text; other values count as left
out.  Where a list of texts is due, a string counts as a list of one, and the items of a list that
give no text are passed over.  The features that are forced on modules, and the modules' names, may
be any values, and give the texts that stand for them.  A number that is too long for a text where
one is due is a fault.
-/

set_option autoImplicit false

namespace NodeSchema

/-- How a crate is read. -/
structure Config where
  /-- The directory that the other paths are relative to. -/
  root : Path
  crateRoot : String
  tokenFile : String
  manifest : String
  output : String
  /-- The version of the schema, if not the one of the manifest. -/
  version : Option String
  crawl : CrawlSettings
  externalTypes : List String
  stdTypes : List String
deriving Repr

namespace Config

/-- The configuration of a crate without configuration file. -/
def default (root : Path) : Config :=
  { root
    crateRoot := "src/lib.rs"
    tokenFile := "src/token.rs"
    manifest := "Cargo.toml"
    output := "syn.json"
    version := none
    crawl := .default
    externalTypes := LeafTables.defaultExternal
    stdTypes := LeafTables.defaultStd }

/-! ## Paths -/

/-- A path that is relative to the root. -/
def path (c : Config) (relative : String) : Path := c.root.join (.ofString relative)

def crateRootPath (c : Config) : Path := c.path c.crateRoot

def tokenFilePath (c : Config) : Path := c.path c.tokenFile

def manifestPath (c : Config) : Path := c.path c.manifest

def outputPath (c : Config) : Path := c.path c.output

/-- The leaves that a configuration names; the delimiters are always the same. -/
def leaves (c : Config) : LeafTables :=
  ⟨LeafTables.defaultGroups, c.externalTypes, c.stdTypes⟩

/-! ## Reading values -/

/-- The entries of the section of a name. -/
def sectionOf (es : List (Yaml.Value × Yaml.Value)) (name : String) :
    List (Yaml.Value × Yaml.Value) :=
  match Yaml.Value.find? es name with
  | some v => v.entries
  | none => []

/-- The text under a name. -/
def textOf (es : List (Yaml.Value × Yaml.Value)) (name : String) : Option String :=
  (Yaml.Value.find? es name).bind Yaml.Value.scalarText?

/-- The path under a name, unless it is empty. -/
def pathOf (es : List (Yaml.Value × Yaml.Value)) (name default : String) : String :=
  match textOf es name with
  | some t => if t.isEmpty then default else t
  | none => default

/-- The texts under a name. -/
def textsOf (es : List (Yaml.Value × Yaml.Value)) (name : String) (default : List String) :
    List String :=
  match Yaml.Value.find? es name with
  | some v => v.itemTexts
  | none => default

/-- The features that are forced on modules. -/
def forcedOf (es : List (Yaml.Value × Yaml.Value)) (default : Table String) :
    Except Failure (Table String) :=
  match Yaml.Value.find? es "module_features" with
  | none => .ok default
  | some .null => .ok .empty
  | some (.mapping ms) =>
    if Yaml.Value.arePairsShowable ms then .ok (.ofPairs (ms.map fun m => (m.1.text, m.2.text)))
    else .error (.unreported .badValue)
  | some _ => .error .gatesNotMapping

/-- The values under the names have texts, as far as `fits` asks. -/
def haveTexts (fits : Yaml.Value → Bool) (es : List (Yaml.Value × Yaml.Value))
    (names : List String) : Except Failure Unit :=
  if names.all fun name => (Yaml.Value.find? es name).all fits then .ok ()
  else .error (.unreported .badValue)

/-- The configuration that the entries of a mapping tell, with the given forced features. -/
def withForced (root : Path) (es : List (Yaml.Value × Yaml.Value)) (forced : Table String) :
    Config :=
  let d := default root
  let paths := sectionOf es "paths"
  let crawl := sectionOf es "crawl"
  let types := sectionOf es "types"
  { root
    crateRoot := pathOf paths "crate_root" d.crateRoot
    tokenFile := pathOf paths "token_file" d.tokenFile
    manifest := pathOf paths "manifest" d.manifest
    output := pathOf paths "output" d.output
    version := textOf es "version"
    crawl := ⟨textsOf crawl "ignored_modules" d.crawl.ignored,
      textsOf crawl "extra_types" d.crawl.extra, forced⟩
    externalTypes := textsOf types "external" d.externalTypes
    stdTypes := textsOf types "std" d.stdTypes }

/-- The configuration that the entries of a mapping tell. -/
def ofEntries (root : Path) (es : List (Yaml.Value × Yaml.Value)) : Except Failure Config := do
  let crawl := sectionOf es "crawl"
  haveTexts Yaml.Value.fits (sectionOf es "paths")
    ["crate_root", "token_file", "manifest", "output"]
  haveTexts Yaml.Value.fits es ["version"]
  haveTexts Yaml.Value.itemsFit crawl ["ignored_modules", "extra_types"]
  let forced ← forcedOf crawl (default root).crawl.forced
  haveTexts Yaml.Value.itemsFit (sectionOf es "types") ["external", "std"]
  .ok (withForced root es forced)

/-- The configuration that a value tells. -/
def ofValue (root : Path) (v : Yaml.Value) : Except Failure Config :=
  if v.isSomething then
    match v with
    | .mapping es => ofEntries root es
    | _ => .error .configNotMapping
  else .ok (default root)

/-- The configuration that a text tells. -/
def ofText [Yaml.DocumentReader] (root : Path) (text : List Char) : Except Failure Config :=
  if text.all Text.isBlank then .ok (default root)
  else
    match Yaml.DocumentReader.load text with
    | .ok v => ofValue root v
    | .error .malformed => .error .configMalformed
    | .error (.fault f) => .error (.unreported f)

/-! ## Finding the file -/

/-- The configuration file that a path means: the one in that directory, that file itself, or the
one beside that file. -/
def fileAt (tree : FileTree) (p : Path) : Path :=
  let name : Path := ⟨false, [Failure.configName]⟩
  let file :=
    if tree.isDirectory p then p.join name
    else if p.name = Failure.configName then p
    else p.parent.join name
  file.normal

/-- The configuration that a path leads to. -/
def load [Yaml.DocumentReader] (tree : FileTree) (p : Path) : Except Failure Config :=
  let file := fileAt tree p
  if !FileTree.isAskable file then .error (.unreported .badValue)
  else if tree.has file then do
    let text ← tree.readText file
    ofText file.parent text
  else .ok (default file.parent)

end Config
end NodeSchema
