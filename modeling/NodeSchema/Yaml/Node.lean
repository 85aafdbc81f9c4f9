import NodeSchema.Yaml.Layout
import NodeSchema.Yaml.Tag
import NodeSchema.Yaml.Timestamp

/-!
# Nodes

A document is a tree of nodes: scalars, lists and mappings, each with its type.  `Node.ofLexemes`
reads the one document of a text; a second document is refused.

An anchor names a node and a reference stands for the node that it names; the name must have been
given before, and only once.  A reference within the node that it names stands for the node with
the reference left open, as `Node.enclosing`.
-/

set_option autoImplicit false

namespace NodeSchema
namespace Yaml

/-- A node of a document. -/
inductive Node
  | scalar (tag : Tag) (text : String)
  | list (tag : Tag) (items : List Node)
  | mapping (tag : Tag) (entries : List (Node × Node))
  /-- A node that this one is within: the mapping or list of an anchor. -/
  | enclosing (anchor : String) (isMapping : Bool)
deriving Repr

namespace Node

/-- The node without text. -/
def empty : Node := .scalar .null ""

mutual
/-- A node stands for itself within itself once. -/
def unfold (anchor : String) (n : Node) : Node → Node
  | .scalar tag text => .scalar tag text
  | .list tag items => .list tag (unfoldAll anchor n items)
  | .mapping tag entries => .mapping tag (unfoldEntries anchor n entries)
  | .enclosing a isMapping => if a = anchor then n else .enclosing a isMapping
/-- Does so in the items of a list. -/
def unfoldAll (anchor : String) (n : Node) : List Node → List Node
  | [] => []
  | m :: ms => unfold anchor n m :: unfoldAll anchor n ms
/-- Does so in the entries of a mapping. -/
def unfoldEntries (anchor : String) (n : Node) : List (Node × Node) → List (Node × Node)
  | [] => []
  | (k, v) :: es => (unfold anchor n k, unfold anchor n v) :: unfoldEntries anchor n es
end

/-! ## Types -/

/-- The type of a plain scalar.  One line feed at its end does not count. -/
def tagOfPlain (text : String) : Tag :=
  let cs := text.toList
  let cs := if cs.length ≠ 1 && cs.getLast? = some '\n' then cs.dropLast else cs
  let word := String.ofList cs
  if Tag.nullWords.contains word then .null
  else if Tag.boolWords.contains word then .bool
  else if Tag.isFloat cs then .float
  else if Tag.isInt cs then .int
  else if word = "<<" then .merge
  else if (readTimestamp true cs).isSome then .timestamp
  else if word = "=" then .default
  else .string

/-- The type that leaves the choice to the node's form or text. -/
def openTag : String := "!"

/-- The type of a scalar: the written one, or the one that its text tells. -/
def scalarTag (written : Option String) (text : String) (isPlain : Bool) : Tag :=
  match written with
  | some t => if t = openTag then tagOfPlain text else .ofName t
  | none => if isPlain then tagOfPlain text else .string

/-- The type of a list or mapping. -/
def formTag (written : Option String) (form : Tag) : Tag :=
  match written with
  | some t => if t = openTag then form else .ofName t
  | none => form

/-! ## Reading -/

/-- The lexemes that are left, and what names stand for. -/
structure Reading where
  lexemes : List Lexeme
  /-- The handles of tags. -/
  handles : List (String × String)
  anchors : List (String × Node)

/-- Reads from the lexemes that are left. -/
abbrev Reader (α : Type) := Reading → Except Refusal (α × Reading)

namespace Reading

/-- The next lexeme. -/
def next (r : Reading) : Lexeme := r.lexemes.head?.getD .textEnd

/-- Passes over a lexeme. -/
def advance (r : Reading) : Reading := { r with lexemes := r.lexemes.tail }

/-- Why the next lexeme cannot stand here. -/
def unexpected (r : Reading) : Refusal :=
  match r.next with
  | .refused why => why
  | _ => .malformed

end Reading

/-- Where a node stands. -/
inductive Position
  /-- Within brackets or braces. -/
  | flow
  | block
  /-- In a block mapping, where a list need not be indented. -/
  | entry
deriving DecidableEq, Repr

/-- What stands before a node: its anchor and its type. -/
structure Properties where
  anchor : Option String
  tag : Option String

/-- Finds what a written type stands for. -/
def resolveTag (r : Reading) (h : Option String) (suffix : String) : Except Refusal String :=
  match h with
  | none => .ok suffix
  | some h =>
    match r.handles.lookup h with
    | some stands => .ok (stands ++ suffix)
    | none => .error .malformed

/-- Reads an anchor. -/
def readAnchor (r : Reading) : Option String × Reading :=
  match r.next with
  | .anchor name => (some name, r.advance)
  | _ => (none, r)

/-- Reads a type; nothing is made of it yet. -/
def readTag (r : Reading) : Option (Option String × String) × Reading :=
  match r.next with
  | .tag h suffix => (some (h, suffix), r.advance)
  | _ => (none, r)

/-- Reads the properties of a node, in either order. -/
def properties : Reader Properties := fun r => do
  let (anchor, r) := readAnchor r
  let (tag, r) := readTag r
  let (anchor, r) := match anchor with
    | none => if tag.isSome then readAnchor r else (none, r)
    | some a => (some a, r)
  match tag with
  | none => .ok (⟨anchor, none⟩, r)
  | some (h, suffix) => (resolveTag r h suffix).map fun t => (⟨anchor, some t⟩, r)

/-! ### Lists and mappings -/

/-- Reads a node, unless one of the lexemes stands here that follow a node that is left out. -/
def orEmpty (node : Reader Node) (follows : List Lexeme) : Reader Node := fun r =>
  if follows.contains r.next then .ok (empty, r) else node r

/-- Reads the items of a block. -/
def blockItems (node : Reader Node) : Nat → Reader (List Node)
  | 0, r => .error r.unexpected
  | fuel + 1, r =>
    match r.next with
    | .item => do
      let (n, r) ← orEmpty node [.item, .blockEnd] r.advance
      let (ns, r) ← blockItems node fuel r
      .ok (n :: ns, r)
    | .blockEnd => .ok ([], r.advance)
    | _ => .error r.unexpected

/-- Reads items that are not indented. -/
def bareItems (node : Reader Node) : Nat → Reader (List Node)
  | 0, r => .error r.unexpected
  | fuel + 1, r =>
    match r.next with
    | .item => do
      let (n, r) ← orEmpty node [.item, .key, .value, .blockEnd] r.advance
      let (ns, r) ← bareItems node fuel r
      .ok (n :: ns, r)
    | _ => .ok ([], r)

/-- Reads the value of an entry, if there is one. -/
def entryValue (node : Reader Node) (follows : List Lexeme) : Reader Node := fun r =>
  match r.next with
  | .value => orEmpty node follows r.advance
  | _ => .ok (empty, r)

/-- Reads the entries of a block. -/
def blockEntries (node : Reader Node) : Nat → Reader (List (Node × Node))
  | 0, r => .error r.unexpected
  | fuel + 1, r =>
    match r.next with
    | .key => do
      let follows : List Lexeme := [.key, .value, .blockEnd]
      let (k, r) ← orEmpty node follows r.advance
      let (v, r) ← entryValue node follows r
      let (es, r) ← blockEntries node fuel r
      .ok ((k, v) :: es, r)
    | .blockEnd => .ok ([], r.advance)
    | _ => .error r.unexpected

/-- Reads an entry after the sign of its key. -/
def flowEntry (node : Reader Node) (close : Lexeme) : Reader (Node × Node) := fun r => do
  let (k, r) ← orEmpty node [.value, .comma, close] r.advance
  let (v, r) ← entryValue node [.comma, close] r
  .ok ((k, v), r)

/-- Reads what stands between brackets or braces up to the closing one, with commas between. -/
def flowParts {α : Type} (part : Reader α) (close : Lexeme) : Nat → Bool → Reader (List α)
  | 0, _, r => .error r.unexpected
  | fuel + 1, isFirst, r =>
    if r.next = close then .ok ([], r.advance)
    else if !isFirst && r.next ≠ .comma then .error r.unexpected
    else
      let r := if isFirst then r else r.advance
      if r.next = close then .ok ([], r.advance)
      else do
        let (x, r) ← part r
        let (xs, r) ← flowParts part close fuel false r
        .ok (x :: xs, r)

/-- Reads an item between brackets; an entry makes a mapping of its own. -/
def flowItem (node : Reader Node) : Reader Node := fun r =>
  if r.next = .key then
    (flowEntry node .closeList r).map fun e => (.mapping .mapping [e.1], e.2)
  else node r

/-- Reads an entry between braces; a node by itself is a key. -/
def flowMember (node : Reader Node) : Reader (Node × Node) := fun r =>
  if r.next = .key then flowEntry node .closeMapping r
  else (node r).map fun n => ((n.1, empty), n.2)

/-! ### Nodes -/

/-- Names a node, unless the name has been given. -/
def bind (anchor : Option String) (n : Node) (r : Reading) : Reading :=
  match anchor with
  | some a => { r with anchors := (a, n) :: r.anchors }
  | none => r

/-- Reads a list or mapping.  Its anchor stands for it in part until it is read. -/
def form {α : Type} (anchor : Option String) (isMapping : Bool) (parts : Reader (List α))
    (make : List α → Node) : Reader Node := fun r => do
  let inside := match anchor with
    | some a => bind anchor (.enclosing a isMapping) r
    | none => r
  let (xs, r) ← parts inside
  let n := make xs
  match anchor with
  | none => .ok (n, r)
  | some a =>
    let n := unfold a n n
    .ok (n, { r with anchors := (a, n) :: r.anchors.map fun e => (e.1, unfold a n e.2) })

/-- Reads a node; every node takes a lexeme, so the number of lexemes bounds the depth. -/
def read : Nat → Position → Reader Node
  | 0, _, r => .error r.unexpected
  | fuel + 1, position, r =>
    match r.next with
    | .reference name =>
      match r.anchors.lookup name with
      | some n => .ok (n, r.advance)
      | none => .error .malformed
    | _ => do
      let (p, r) ← properties r
      if p.anchor.any fun a => (r.anchors.lookup a).isSome then .error .malformed
      else
        let size := r.lexemes.length + 1
        let inBlock := position ≠ .flow
        match r.next with
        | .scalar text isPlain =>
          let n := Node.scalar (scalarTag p.tag text isPlain) text
          .ok (n, bind p.anchor n r.advance)
        | .openList =>
          form p.anchor false (flowParts (flowItem (read fuel .flow)) .closeList size true)
            (.list (formTag p.tag .list)) r.advance
        | .openMapping =>
          form p.anchor true (flowParts (flowMember (read fuel .flow)) .closeMapping size true)
            (.mapping (formTag p.tag .mapping)) r.advance
        | x =>
          if x = .item && position = .entry then
            form p.anchor false (bareItems (read fuel .block) size)
              (.list (formTag p.tag .list)) r
          else if x = .blockList && inBlock then
            form p.anchor false (blockItems (read fuel .block) size)
              (.list (formTag p.tag .list)) r.advance
          else if x = .blockMapping && inBlock then
            form p.anchor true (blockEntries (read fuel .entry) size)
              (.mapping (formTag p.tag .mapping)) r.advance
          else if p.anchor.isSome || p.tag.isSome then
            let n := Node.scalar (scalarTag p.tag "" true) ""
            .ok (n, bind p.anchor n r)
          else .error r.unexpected

/-! ### Documents -/

/-- The handles that are known without directives. -/
def commonHandles : List (String × String) := [("!", "!"), ("!!", Tag.base)]

/-- The only major version. -/
def isVersionOne (ds : List Char) : Bool :=
  !ds.isEmpty && ds.getLast? = some '1' && ds.dropLast.all (· = '0')

/-- Reads the directives before a document: the handles that they define. -/
def directives : Nat → Bool → List (String × String) → Reader (List (String × String))
  | 0, _, _, r => .error r.unexpected
  | fuel + 1, hasVersion, handles, r =>
    match r.next with
    | .directive (.version major) =>
      if hasVersion || !isVersionOne major then .error .malformed
      else directives fuel true handles r.advance
    | .directive (.handle name stands) =>
      if (handles.lookup name).isSome then .error .malformed
      else directives fuel hasVersion ((name, stands) :: handles) r.advance
    | .directive .other => directives fuel hasVersion handles r.advance
    | _ => .ok (handles, r)

/-- Passes over the markers of the end of a document. -/
def skipEnds (r : Reading) : Reading :=
  { r with lexemes := r.lexemes.dropWhile (· = .documentEnd) }

/-- Reads the node at the root of a document. -/
def root : Reader Node := fun r => read (r.lexemes.length + 1) .block r

/-- Reads what stands in a document after the marker of its start, which may be nothing. -/
def content : Reader Node := fun r =>
  match r.next with
  | .directive _ | .documentStart | .documentEnd | .textEnd => .ok (empty, r)
  | _ => root r

/-- Reads a document that has a marker for its start, after the directives before. -/
def explicit (r : Reading) : Except Refusal (Option Node × Reading) := do
  let r := skipEnds r
  if r.next = .textEnd then .ok (none, r)
  else
    let (handles, r) ← directives (r.lexemes.length + 1) false [] r
    if r.next = .documentStart then
      let (n, r) ← content { r.advance with handles := handles ++ commonHandles }
      .ok (some n, r)
    else .error r.unexpected

/-- Reads the first document of a text, if there is one. -/
def document (r : Reading) : Except Refusal (Option Node × Reading) :=
  match r.next with
  | .directive _ | .documentStart | .textEnd => explicit r
  | _ => (root r).map fun n => (some n.1, n.2)

/-- Reads the one document of a text; nothing if there is none. -/
def ofLexemes (ls : List Lexeme) : Except Refusal (Option Node) := do
  let (n, r) ← document ⟨ls, commonHandles, []⟩
  let r := skipEnds r
  if r.next = .textEnd then .ok n else .error r.unexpected

end Node
end Yaml
end NodeSchema
