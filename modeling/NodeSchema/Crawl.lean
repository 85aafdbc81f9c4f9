import NodeSchema.Declaration.Recognize
import NodeSchema.Feature.Gate
import NodeSchema.FileTree
import NodeSchema.Schema.Assemble

/-!
# Crawling a crate

A crate is read from its root file through the modules that its files name, depth first.  A module
with its items in another file names that file, or is the file of its own name beside the file
that names it; inline modules and the ignored ones are passed over.

Declarations are recorded from the calls of the three macros, and from plain structs on a list of
their own.  A declaration is gated by what the modules above it are gated by, and by the attributes
of its macro call; a module on the list of forced features is gated by its feature alone, whatever
stands above or on it.  Aliases are read from the public imports of the root file alone.

Every file on the way to a file is another one unless modules include each other, so the number
of files bounds the depth of the crawl.
-/

set_option autoImplicit false

namespace NodeSchema

open Rust

/-- What a crawl is told about a crate. -/
structure CrawlSettings where
  /-- The modules that are passed over. -/
  ignored : List String
  /-- The plain structs that are recorded. -/
  extra : List String
  /-- The features that gate modules whatever else does. -/
  forced : Table String
deriving Repr

namespace CrawlSettings

/-- The settings of a crawl without configuration. -/
def default : CrawlSettings :=
  ⟨["fold", "visit", "visit_mut"], ["Lifetime"], .ofPairs [("derive", "derive")]⟩

end CrawlSettings

/-- A crate: its files, the directory it lies in, and the settings. -/
structure Crate where
  tree : FileTree
  directory : Path
  settings : CrawlSettings
deriving Repr

namespace Crate

variable [FileParser]

/-! ## Recording -/

/-- Records a declaration under its gates. -/
def record (l : Lookup) (d : Declaration) (gates : List Gate) : Logged Lookup := do
  let gate ← Logged.ofExcept (Gate.resolve gates)
  let d ← Logged.ofExcept (d.gated gate)
  if l.declarations.has d.ident then Logged.tell (.redeclared d.ident)
  pure { l with declarations := l.declarations.insert d.ident d }

/-! ## Visiting items -/

/-- The file that a module is read from: the one that its attributes name, unless that is empty,
or the one of its own name. -/
def moduleFile (source : Source) (name : String) (attributes : List Attribute) :
    Except Failure String :=
  (Attribute.path source attributes).map fun
    | some file => if file = "" then name ++ ".rs" else file
    | none => name ++ ".rs"

/-- The gates of a module. -/
def moduleGates (s : CrawlSettings) (gates : List Gate) (name : String)
    (attributes : List Attribute) : List Gate :=
  match s.forced.find? name with
  | some feature => Gate.ofFeatures (.ofList [feature])
  | none => Gate.add gates attributes

/-- How the file of a module is loaded: its path, its gates, and what was found before. -/
abbrev Loader := Path → List Gate → Lookup → Logged Lookup

/-- Visits one item of a file. -/
def visit (c : Crate) (load : Loader) (source : Source) (path : Path) (gates : List Gate)
    (isRoot : Bool) (l : Lookup) (i : Attributed Item) : Logged Lookup :=
  match i.item.body with
  | .module false => do
    let name := i.item.name.getD ""
    if c.settings.ignored.contains name then
      Logged.tell (.moduleSkipped name)
      pure l
    else
      let file ← Logged.ofExcept (moduleFile source name i.attributes)
      load (path.parent.join (.ofString file))
        (moduleGates c.settings gates name i.attributes) l
  | .macroCall call => do
    match ← Logged.ofExcept (Declaration.recognize source call) with
    | some d => record l d (Gate.add gates i.attributes)
    | none => pure l
  | .struct body =>
    let name := i.item.name.getD ""
    if c.settings.extra.contains name then do
      let d ← Logged.ofExcept (Declaration.ofStruct name body)
      record l d gates
    else pure l
  | .use tree =>
    if isRoot && i.item.isPublic then
      pure { l with aliases := l.aliases.insertAll (Alias.ofUse tree).entries }
    else pure l
  | _ => pure l

/-- Visits items one after the other. -/
def visitAll (c : Crate) (load : Loader) (source : Source) (path : Path) (gates : List Gate)
    (isRoot : Bool) : Lookup → List (Attributed Item) → Logged Lookup
  | l, [] => pure l
  | l, i :: is => do
    let l ← c.visit load source path gates isRoot l i
    c.visitAll load source path gates isRoot l is

/-- Reads the source text of a module. -/
def source (c : Crate) (path : Path) : Except Failure Source :=
  let full := c.directory.join path
  if FileTree.isAskable full then
    match c.tree.read full with
    | .ok bytes => .ok ⟨path.toString, bytes⟩
    | .error fault => .error (.unreadableModule path.toString fault full.toString)
  else .error (.unreported .badValue)

/-- Loads a file and the modules it names, at most `fuel` files deep. -/
def load (c : Crate) : Nat → Bool → Loader
  | 0, _, _, _, _ => Logged.fail (.unreported .endless)
  | fuel + 1, isRoot, path, gates, l => do
    Logged.tell (.moduleLoading path.toString)
    let source ← Logged.ofExcept (c.source path)
    let items ← Logged.ofExcept source.items
    c.visitAll (c.load fuel false) source path gates isRoot l items

/-- The depth that no crawl exceeds unless modules include each other. -/
def maxDepth (c : Crate) : Nat := c.tree.files.length + 1

/-- Crawls a crate from its root file. -/
def crawl (c : Crate) (root : Path) : Logged Lookup := do
  let l ← c.load c.maxDepth true root [] .empty
  Logged.tell (.collected l.declarations.size l.aliases.size)
  pure l

/-- Crawls a module by itself, under a gate that it inherits. -/
def crawlModule (c : Crate) (path : Path) (features : Features) : Logged Lookup :=
  c.load c.maxDepth false path (Gate.ofFeatures features) .empty

end Crate
end NodeSchema
