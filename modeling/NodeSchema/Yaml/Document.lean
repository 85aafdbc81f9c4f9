import NodeSchema.Text.Base64
import NodeSchema.Yaml.Node
import NodeSchema.Yaml.Reader
import NodeSchema.Yaml.Scalar.Number

/-!
# The values of documents

`Yaml.read` reads the value of the one document of a text.

A mapping under the merge key is merged into the mapping around: its entries come first, and those
that are written out win; of several merged mappings the first wins.

Lists and mappings are looked at level by level.  So, if more than one node has no value, the
refusal that counts is the one with the fewest lists and mappings around it, and of those the first.
-/

set_option autoImplicit false

namespace NodeSchema
namespace Yaml

/-! ## Refusals level by level -/

/-- A refusal with its level: the number of lists and mappings around, twice, and one more unless
it concerns a merge, because merges are looked at first. -/
structure Flaw where
  level : Nat
  why : Refusal
deriving DecidableEq, Repr

/-- The value of a part, or the flaw that counts. -/
abbrev Part (α : Type) := Except Flaw α

namespace Part

/-- Two parts together; the flaw at the lower level counts, and of two at one level the first. -/
def both {α β : Type} : Part α → Part β → Part (α × β)
  | .ok a, .ok b => .ok (a, b)
  | .error e, .ok _ => .error e
  | .ok _, .error e => .error e
  | .error e, .error f => .error (if f.level < e.level then f else e)

/-- A part and the parts after it. -/
def cons {α : Type} (x : Part α) (xs : Part (List α)) : Part (List α) :=
  (both x xs).map fun p => p.1 :: p.2

/-- Two lists of parts, one after the other. -/
def append {α : Type} (xs ys : Part (List α)) : Part (List α) :=
  (both xs ys).map fun p => p.1 ++ p.2

/-- A flaw among the nodes at a depth. -/
def flaw {α : Type} (depth : Nat) (why : Refusal) : Part α := .error ⟨2 * depth + 1, why⟩

/-- A node at a depth that has no value at all. -/
def malformed {α : Type} (depth : Nat) : Part α := flaw depth .malformed

/-- A merge into a mapping whose entries are at a depth that is none. -/
def badMerge {α : Type} (depth : Nat) : Part α := .error ⟨2 * depth, .malformed⟩

/-- A value that was found at a depth. -/
def ofExcept {α : Type} (depth : Nat) : Except Refusal α → Part α
  | .ok a => .ok a
  | .error why => flaw depth why

end Part

namespace Value

/-! ## Scalars -/

/-- The words for truth values, in lower case. -/
def truths : List (String × Bool) :=
  [("yes", true), ("no", false), ("true", true), ("false", false), ("on", true), ("off", false)]

/-- The value of a date, with the time that may follow. -/
def timestamp (text : String) : Except Refusal Value :=
  let cs := text.toList
  let cs := if cs.getLast? = some '\n' then cs.dropLast else cs
  match readTimestamp false cs with
  | none => .error (.fault .missingPart)
  | some (d, t) =>
    if !d.isValid || !t.all Time.isValid then .error (.fault .badValue)
    else
      match t with
      | none => .ok (.date d)
      | some t => .ok (.time d t)

/-- The value of a text in base 64. -/
def binary (text : String) : Except Refusal Value :=
  let cs := text.toList
  if cs.all fun c => c.toNat < 128 then
    match Text.Base64.decode? cs with
    | some bs => .ok (.bytes bs)
    | none => .error .malformed
  else .error .malformed

/-- The value of a text of a type. -/
def ofText (tag : Tag) (text : String) : Except Refusal Value :=
  match tag with
  | .null => .ok .null
  | .bool =>
    match truths.lookup (String.ofList (text.toList.map Char.toLower)) with
    | some b => .ok (.bool b)
    | none => .error (.fault .missingKey)
  | .int => (Number.int text).map .int
  | .float => (Number.float text).map .float
  | .string => .ok (.string text)
  | .binary => binary text
  | .timestamp => timestamp text
  | .list | .mapping | .set | .pairs | .merge | .default | .other _ => .error .malformed

/-- The type is one of scalars. -/
def isScalarTag : Tag → Bool
  | .null | .bool | .int | .float | .string | .binary | .timestamp => true
  | _ => false

/-- The type is one of lists or mappings, whose nodes are looked at one level later. -/
def isFormTag : Tag → Bool
  | .list | .mapping | .set | .pairs => true
  | _ => false

/-- What a node of another form than its type becomes. -/
def misfit (depth : Nat) (tag : Tag) : Part Value :=
  Part.malformed (if isFormTag tag then depth + 1 else depth)

/-! ## Defaults -/

/-- The type of a node. -/
def tagOf : Node → Tag
  | .scalar tag _ | .list tag _ | .mapping tag _ => tag
  | .enclosing _ isMapping => if isMapping then .mapping else .list

mutual
/-- The text that stands for a node where a scalar is due: that of a scalar, or of the value under
the key for a default. -/
def scalarOf : Node → Option String
  | .scalar _ text => some text
  | .list _ _ | .enclosing _ _ => none
  | .mapping _ entries => defaultOf entries
/-- The text of the value under the first key for a default. -/
def defaultOf : List (Node × Node) → Option String
  | [] => none
  | (k, v) :: es => if tagOf k = .default then scalarOf v else defaultOf es
end

/-- The value of a mapping of the type of scalars. -/
def ofDefault (depth : Nat) (tag : Tag) (text : Option String) : Part Value :=
  match text with
  | none => Part.malformed depth
  | some t =>
    if tag = .timestamp then Part.flaw depth (.fault .wrongType)
    else Part.ofExcept depth (ofText tag t)

/-! ## Lists and mappings -/

/-- The items of a list each of which is a mapping of one entry. -/
def entryOf (depth : Nat) (entries : List (Part (Value × Value))) : Part (Value × Value) :=
  match entries with
  | [e] => e
  | _ => Part.malformed depth

/-- A value that has to be a key. -/
def keyPart (depth : Nat) (key : Part Value) : Part Value :=
  match key with
  | .ok v => if v.isKey then .ok v else Part.malformed depth
  | .error f => .error f

/-- The entries of a mapping: those merged into it, and those written out. -/
structure Parts where
  merged : Part (List (Value × Value))
  own : Part (List (Value × Value))

/-- The entries of a mapping in the order in which they are entered. -/
def Parts.all (p : Parts) : Part (List (Value × Value)) := Part.append p.merged p.own

/-- The entries with each key once. -/
def entered (es : List (Value × Value)) : List (Value × Value) :=
  es.foldl (fun out e => enter e.1 e.2 out) []

mutual
/-- The value of a node, with `depth` lists and mappings around it. -/
def ofNode (depth : Nat) : Node → Part Value
  | .scalar tag text =>
    if isFormTag tag then misfit depth tag else Part.ofExcept depth (ofText tag text)
  | .list tag items =>
    match tag with
    | .list => (itemsOf (depth + 1) items).map .list
    | .pairs => (pairsOf (depth + 1) items).map .pairs
    | _ => misfit depth tag
  | .mapping tag entries =>
    match tag with
    | .mapping => (partsOf (depth + 1) entries).all.map fun es => .mapping (entered es)
    | .set => (partsOf (depth + 1) entries).all.map fun es => .set ((entered es).map Prod.fst)
    | _ => if isScalarTag tag then ofDefault depth tag (defaultOf entries) else misfit depth tag
  | .enclosing _ isMapping => .ok (.enclosing isMapping)
/-- The values of the items of a list. -/
def itemsOf (depth : Nat) : List Node → Part (List Value)
  | [] => .ok []
  | n :: ns => Part.cons (ofNode depth n) (itemsOf depth ns)
/-- The entries of the items of a list. -/
def pairsOf (depth : Nat) : List Node → Part (List (Value × Value))
  | [] => .ok []
  | n :: ns => Part.cons (pairOf depth n) (pairsOf depth ns)
/-- The one entry of an item. -/
def pairOf (depth : Nat) : Node → Part (Value × Value)
  | .mapping _ entries => entryOf depth (plainEntriesOf depth entries)
  | .scalar _ _ | .list _ _ | .enclosing _ _ => Part.malformed depth
/-- The entries of a mapping without merges. -/
def plainEntriesOf (depth : Nat) : List (Node × Node) → List (Part (Value × Value))
  | [] => []
  | (k, v) :: es => Part.both (ofNode depth k) (ofNode depth v) :: plainEntriesOf depth es
/-- The entries of a mapping, those under the merge key apart. -/
def partsOf (depth : Nat) : List (Node × Node) → Parts
  | [] => ⟨.ok [], .ok []⟩
  | (k, v) :: es =>
    let rest := partsOf depth es
    if tagOf k = .merge then ⟨Part.append (mergeOf depth v) rest.merged, rest.own⟩
    else
      let key : Part Value :=
        match k with
        | .scalar .default text => .ok (.string text)
        | _ => keyPart depth (ofNode depth k)
      ⟨rest.merged, Part.cons (Part.both key (ofNode depth v)) rest.own⟩
/-- The entries that are merged: those of a mapping, or of a list of mappings. -/
def mergeOf (depth : Nat) : Node → Part (List (Value × Value))
  | .mapping _ entries => (partsOf depth entries).all
  | .list _ items => mergesOf depth items
  | .enclosing _ true => .ok []
  | .enclosing _ false | .scalar _ _ => Part.badMerge depth
/-- The entries of mappings; those of the last come first. -/
def mergesOf (depth : Nat) : List Node → Part (List (Value × Value))
  | [] => .ok []
  | n :: ns => Part.append (mergesOf depth ns) (mappingOf depth n)
/-- The entries of a mapping. -/
def mappingOf (depth : Nat) : Node → Part (List (Value × Value))
  | .mapping _ entries => (partsOf depth entries).all
  | .enclosing _ true => .ok []
  | .enclosing _ false | .scalar _ _ | .list _ _ => Part.badMerge depth
end

end Value

/-! ## Documents -/

/-- The character may stand in a text. -/
def isTextChar (c : Char) : Bool :=
  let n := c.toNat
  n = 9 || n = 10 || n = 13 || (32 ≤ n && n ≤ 126) || n = 0x85 || (0xA0 ≤ n && n ≤ 0xD7FF)
    || (0xE000 ≤ n && n ≤ 0xFFFD) || 0x10000 ≤ n

/-- Reads the value of the one document of a text; a text without document has the value null. -/
def read (cs : List Char) : Except Refusal Value :=
  if !cs.all isTextChar then .error .malformed
  else
    match Node.ofLexemes (lexemes cs) with
    | .error why => .error why
    | .ok none => .ok .null
    | .ok (some n) =>
      match Value.ofNode 0 n with
      | .ok v => .ok v
      | .error f => .error f.why

/-- The reader that the program uses. -/
instance documentReader : DocumentReader := ⟨read⟩

end Yaml
end NodeSchema
