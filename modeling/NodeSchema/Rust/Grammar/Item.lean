import NodeSchema.Rust.Grammar.Type
import NodeSchema.Rust.Item

/-!
# The grammar of items

Reads the items of a file, of a struct and of an enum off token trees.  Each reader of an item
takes the list from the item's visibility on.  The words that begin items are no names at the
front of a statement; anywhere else a name may be any word.
-/

set_option autoImplicit false

namespace NodeSchema
namespace Rust
namespace Grammar

/-! ## Paths and visibility -/

/-- Goes on with a path of words. -/
def pathTail : Skipper := fun ts => do skip anyWord (← sign "::" ts)

/-- Passes over a path of words. -/
def wordPath : Skipper := fun ts => do
  let rest ← firstOf [metavariable, skip anyWord, pathTail] ts
  some (many pathTail rest)

/-- The inside of the parentheses of a restricted visibility. -/
def isRestriction (body : List Tree) : Bool :=
  (oneWord openingWords body) matches some []
    || (do wordPath (← word "in" body)) matches some []

/-- Takes a visibility if there is one: whether it is plain `pub`, and the rest. -/
def visibility? (ts : List Tree) : Option (Bool × List Tree) :=
  match word "pub" ts with
  | some rest =>
    match groupThat "(" isRestriction rest with
    | some rest' => some (false, rest')
    | none => some (true, rest)
  | none =>
    match word "crate" ts with
    | some rest => if (sign "::" rest).isSome then none else some (false, rest)
    | none => none

/-- Takes a visibility, which may be absent. -/
def visibility (ts : List Tree) : Bool × List Tree := (visibility? ts).getD (false, ts)

/-! ## Attributes -/

/-- Reads the inside of the brackets of an attribute. -/
def attributeBody (code : Code) (body : List Tree) : Option Attribute := do
  let rest ← wordPath body
  let first ← body.head?
  let make (arguments : Option Tree) (value : Option AttributeValue) : Attribute :=
    { name := textOf (consumed body rest), text := textOf body, start := first.start, arguments,
      value }
  match rest with
  | [] => some (make none none)
  | [.group o b c] => some (make (some (Tree.joined (.group o b c))) none)
  | _ =>
    let value ← sign "=" rest
    match value with
    | [.leaf t] =>
      if t.kind = .string then some (make none (some (.string t.text t.start)))
      else if (code.value value) matches some [] then some (make none (some .other)) else none
    | _ => if (code.value value) matches some [] then some (make none (some .other)) else none

/-- Takes an outer attribute. -/
def outerAttribute (code : Code) : Parser Attribute := fun ts => do
  let rest ← sign "#" ts
  let (body, rest') ← group "[" rest
  let a ← attributeBody code body
  some (a, rest')

/-- Takes an inner attribute. -/
def innerAttribute (code : Code) : Parser Attribute := fun ts => do
  let rest ← sign "#" ts
  let rest ← sign "!" rest
  let (body, rest') ← group "[" rest
  let a ← attributeBody code body
  some (a, rest')

/-- Takes any number of outer attributes. -/
def outerAttributesFuel (code : Code) : Nat → List Tree → List Attribute × List Tree
  | 0, ts => ([], ts)
  | fuel + 1, ts =>
    match outerAttribute code ts with
    | some (a, rest) =>
      let (as, rest') := outerAttributesFuel code fuel rest
      (a :: as, rest')
    | none => ([], ts)

/-- Takes any number of outer attributes. -/
def outerAttributes (code : Code) (ts : List Tree) : List Attribute × List Tree :=
  outerAttributesFuel code ts.length ts

/-- The comments that stand before a tree, as entries. -/
def commentsBefore {α : Type} (ts : List Tree) : List (Entry α) :=
  match ts with
  | t :: _ => (t.first.gap.filter fun l => l.kind = .comment).map fun l =>
      .comment (String.ofList l.text)
  | [] => []

/-- Takes a member with the attributes and comments before it. -/
def member {α : Type} (code : Code) (p : Parser α) : Parser (List (Entry α)) := fun ts => do
  let (as, rest) := outerAttributes code ts
  let (x, rest') ← p rest
  some (commentsBefore ts ++ as.map .outerAttribute ++ [.item x], rest')

/-- Reads all of a list as members with commas between them. -/
def members {α : Type} (code : Code) (p : Parser α) (ts : List Tree) : Option (List (Entry α)) :=
  (commaList (member code p) ts).map List.flatten

/-! ## Structs and enums -/

/-- Takes a named field. -/
def field (code : Code) : Parser FieldNode := fun ts => do
  let (isPublic, rest) := visibility ts
  let (name, rest) ← anyWord rest
  let rest ← sign ":" rest
  let (type, rest) ← type code rest
  some (⟨name.text, type, isPublic⟩, rest)

/-- Takes the type of a positional member. -/
def positionalMember (code : Code) : Parser TypeNode := fun ts =>
  let (_, rest) := outerAttributes code ts
  type code (visibility rest).2

/-- Takes a variant of an enum. -/
def variant (code : Code) : Parser Variant := fun ts => do
  let (_, rest) := visibility ts
  let (name, rest) ← anyWord rest
  let (payload, rest) ← match rest with
    | .group o body _ :: rest' =>
      if o.text = "(" then do
        let types ← commaList (positionalMember code) body
        some (Payload.positional types, rest')
      else if o.text = "\x7b" then do
        let _ ← members code (field code) body
        some (Payload.named, rest')
      else some (Payload.unit, rest)
    | _ => some (Payload.unit, rest)
  match sign "=" rest with
  | none => some (⟨name.text, payload⟩, rest)
  | some after =>
    let rest ← code.value after
    some (⟨name.text, payload⟩, rest)

/-- Passes over one condition of a where clause. -/
def condition (code : Code) : Skipper := fun ts => do
  let rest ← match lifetime ts with
    | some rest => some rest
    | none =>
      match word "for" ts with
      | some after => do skip (simpleType code) (← typeParameters code after)
      | none => skip (simpleType code) ts
  bounds code (← sign ":" rest)

/-- Passes over the conditions of a where clause. -/
def conditionsFuel (code : Code) : Nat → List Tree → List Tree
  | 0, ts => ts
  | fuel + 1, ts =>
    match condition code ts with
    | none => ts
    | some rest =>
      match sign "," rest with
      | some after => conditionsFuel code fuel after
      | none => rest

/-- Passes over a where clause if there is one. -/
def whereClause (code : Code) (ts : List Tree) : List Tree :=
  match word "where" ts with
  | some rest => conditionsFuel code rest.length rest
  | none => ts

/-- Passes over type parameters if there are any. -/
def optionalParameters (code : Code) : Skipper := fun ts =>
  match sign "<" ts with
  | some _ => typeParameters code ts
  | none => some ts

/-- Passes over `: bounds` if they are there. -/
def optionalBounds (code : Code) : Skipper := fun ts =>
  match sign ":" ts with
  | some rest => bounds code rest
  | none => some ts

/-- Passes over `= value` if it is there. -/
def optionalValue (code : Code) : Skipper := fun ts =>
  match sign "=" ts with
  | some rest => code.value rest
  | none => some ts

/-- Passes over a return type if there is one. -/
def optionalReturn (code : Code) : Skipper := fun ts =>
  match sign "->" ts with
  | some rest => skip (type code) rest
  | none => some ts

/-! ## Each kind of item

A reader of a kind takes the list after the visibility and gives the name, what the item says,
and the rest. -/

/-- What a reader of a kind of items takes. -/
abbrev Reading := Option String × ItemBody

/-- Reads a module. -/
def readModule (code : Code) : Parser Reading := fun ts => do
  let rest ← word "mod" ts
  let (name, rest) ← anyWord rest
  match sign ";" rest with
  | some rest' => some ((some name.text, .module false), rest')
  | none =>
    let rest' ← groupThat "\x7b" code.declarations rest
    some ((some name.text, .module true), rest')

/-- Reads a struct. -/
def readStruct (code : Code) : Parser Reading := fun ts => do
  let rest ← word "struct" ts
  let (name, rest) ← anyWord rest
  let rest ← optionalParameters code rest
  let make (body : StructBody) : Reading := (some name.text, .struct body)
  match sign ";" rest with
  | some rest' => some (make .unit, rest')
  | none =>
    match group "(" rest with
    | some (body, after) =>
      let _ ← commaList (positionalMember code) body
      let rest' ← sign ";" (whereClause code after)
      some (make .positional, rest')
    | none =>
      let (body, rest') ← group "\x7b" (whereClause code rest)
      let fields ← members code (field code) body
      some (make (.named fields), rest')

/-- Reads a union. -/
def readUnion (code : Code) : Parser Reading := fun ts => do
  let rest ← word "union" ts
  let (name, rest) ← anyWord rest
  let rest ← optionalParameters code rest
  let (body, rest') ← group "\x7b" (whereClause code rest)
  let _ ← members code (field code) body
  some ((some name.text, .plain .union), rest')

/-- Reads an enum. -/
def readEnum (code : Code) : Parser Reading := fun ts => do
  let rest ← word "enum" ts
  let (name, rest) ← anyWord rest
  let rest ← optionalParameters code rest
  let (body, rest') ← group "\x7b" (whereClause code rest)
  let variants ← members code (variant code) body
  some ((some name.text, .enum variants), rest')

/-- Reads a type alias. -/
def readTypeAlias (code : Code) : Parser Reading := fun ts => do
  let rest ← word "type" ts
  let (name, rest) ← anyWord rest
  let rest ← optionalParameters code rest
  let (t, rest) ← type code (← sign "=" (whereClause code rest))
  let rest' ← sign ";" (whereClause code rest)
  some ((some name.text, .typeAlias t), rest')

/-- Reads the declaration of an associated type, which has no visibility. -/
def readAssociatedType (code : Code) : Parser Reading := fun ts => do
  let rest ← word "type" ts
  let (name, rest) ← anyWord rest
  let rest ← optionalParameters code rest
  let rest ← optionalBounds code rest
  let rest' ← sign ";" (whereClause code rest)
  some ((some name.text, .plain .associatedType), rest')

/-- Reads a function or its signature. -/
def readFunction (code : Code) : Parser Reading := fun ts => do
  let rest ← word "fn" (many modifier ts)
  let (name, rest) ← either (fun ts => do
      let rest ← metavariable ts
      some (textOf (consumed ts rest), rest))
    (fun ts => (anyWord ts).map fun r => (r.1.text, r.2)) rest
  let rest ← optionalParameters code rest
  let rest ← groupThat "(" code.parameters rest
  let rest ← optionalReturn code rest
  let rest := whereClause code rest
  match sign ";" rest with
  | some rest' => some ((some name, .plain .signature), rest')
  | none =>
    let rest' ← groupThat "\x7b" code.block rest
    some ((some name, .plain .function), rest')

/-- Reads an implementation. -/
def readImplementation (code : Code) : Parser Reading := fun ts => do
  let rest ← word "impl" (optionally (word "unsafe") ts)
  let rest ← optionalParameters code rest
  let rest := match (do word "for" (← skip (simpleType code) (optionally (sign "!") rest))) with
    | some after => after
    | none => rest
  let (_, rest) ← type code rest
  let rest := whereClause code rest
  match sign ";" rest with
  | some rest' => some ((none, .plain .implementation), rest')
  | none =>
    let rest' ← groupThat "\x7b" code.declarations rest
    some ((none, .plain .implementation), rest')

/-- Reads a trait. -/
def readTrait (code : Code) : Parser Reading := fun ts => do
  let rest ← word "trait" (optionally (word "unsafe") ts)
  let (name, rest) ← anyWord rest
  let rest ← optionalParameters code rest
  let rest ← optionalBounds code rest
  let rest' ← groupThat "\x7b" code.declarations (whereClause code rest)
  some ((some name.text, .plain .trait), rest')

/-- Reads a constant. -/
def readConstant (code : Code) : Parser Reading := fun ts => do
  let rest ← word "const" ts
  let (name, rest) ← anyWord rest
  let rest ← sign ":" rest
  let (_, rest) ← type code rest
  let rest ← optionalValue code rest
  let rest' ← sign ";" rest
  some ((some name.text, .plain .constant), rest')

/-- Reads a static variable. -/
def readStatic (code : Code) : Parser Reading := fun ts => do
  let rest ← word "static" ts
  let (name, rest) ← anyWord (optionally (word "mut") (optionally (word "ref") rest))
  let rest ← sign ":" rest
  let (_, rest) ← type code rest
  let rest ← optionalValue code rest
  let rest' ← sign ";" rest
  some ((some name.text, .plain .static), rest')

/-- Reads the declaration of an external crate. -/
def readExternCrate : Parser Reading := fun ts => do
  let rest ← word "extern" ts
  let rest ← word "crate" rest
  let (name, rest) ← anyWord rest
  let rest := optionally (fun ts => do skip anyWord (← word "as" ts)) rest
  let rest' ← sign ";" rest
  some ((some name.text, .plain .externCrate), rest')

/-- Reads a block of external declarations. -/
def readForeignModule (code : Code) : Parser Reading := fun ts => do
  let rest ← word "extern" ts
  let rest := optionally (fun ts => match ts with
    | .leaf t :: rest => if t.kind = .string then some rest else none
    | _ => none) rest
  match sign ";" rest with
  | some rest' => some ((none, .plain .foreignModule), rest')
  | none =>
    let rest' ← groupThat "\x7b" code.declarations rest
    some ((none, .plain .foreignModule), rest')

/-! ### Imports -/

mutual
/-- One clause of an import. -/
def useClauseFuel : Nat → Parser UseTree
  | 0, _ => none
  | fuel + 1, ts =>
    match group "\x7b" ts with
    | some (body, rest) => (useListFuel fuel body).map fun us => (.list us, rest)
    | none =>
      match sign "*" ts with
      | some rest => some (.wildcard, rest)
      | none =>
        match wordPath ts with
        | none => do
          let after ← sign "::" ts
          match sign "*" after with
          | some rest => some (.wildcard, rest)
          | none =>
            let (body, rest) ← group "\x7b" after
            let us ← useListFuel fuel body
            some (.list us, rest)
        | some rest =>
          let path := textOf (consumed ts rest)
          match sign "::" rest with
          | some after =>
            match sign "*" after with
            | some rest' => some (.wildcard, rest')
            | none => do
              let (body, rest') ← group "\x7b" after
              let us ← useListFuel fuel body
              some (.list us, rest')
          | none =>
            match word "as" rest with
            | some after => do
              let (name, rest') ← anyWord after
              some (.rename path name.text, rest')
            | none => some (.path path, rest)

/-- The clauses of a list. -/
def useListFuel : Nat → List Tree → Option (List UseTree)
  | 0, _ => none
  | fuel + 1, ts =>
    match ts with
    | [] => some []
    | _ =>
      if (sign "," ts) matches some [] then some [] else useClausesFuel fuel ts

/-- One or more clauses with commas between them; a comma may follow the last. -/
def useClausesFuel : Nat → List Tree → Option (List UseTree)
  | 0, _ => none
  | fuel + 1, ts => do
    let (u, rest) ← useClauseFuel fuel ts
    match rest with
    | [] => some [u]
    | _ =>
      let after ← sign "," rest
      match after with
      | [] => some [u]
      | _ => (useClausesFuel fuel after).map (u :: ·)
end

/-- Reads an import. -/
def readUse : Parser Reading := fun ts => do
  let rest ← word "use" ts
  let (tree, rest) ← useClauseFuel (4 * Tree.sizeList rest + 4) rest
  let rest' ← sign ";" rest
  some ((none, .use tree), rest')

/-! ### Macros -/

/-- The words that begin something else than a name at the front of a statement. -/
def statementWords : List String :=
  ["async", "break", "const", "continue", "crate", "enum", "extern", "false", "fn", "for", "if",
    "impl", "let", "loop", "match", "mod", "move", "pub", "return", "self", "static", "struct",
    "super", "trait", "true", "try", "type", "unsafe", "use", "while", "yield"]

/-- Takes a call of a macro. -/
def macroCall : Parser MacroCall := fun ts => do
  let first ← ts.head?
  let rest ← wordPath ts
  let simple := (sign "::" (ts.drop 1)).isNone
  if simple && (match first with
      | .leaf t => statementWords.contains t.text || primitiveTypes.contains t.text
      | .group _ _ _ => true) then none
  else
    let after ← sign "!" rest
    let (g, rest') ← anyGroup after
    some (⟨textOf (consumed ts rest), g.joined, textOf (consumed ts rest'), first.start⟩, rest')

mutual
/-- The inside of a rule is well formed: a dollar sign begins a name or a repetition. -/
def rulesFit : List Tree → Bool
  | [] => true
  | .leaf t :: rest => (!t.isMark "$" || startsBinder rest) && rulesFit rest
  | .group _ body _ :: rest => rulesFit body && rulesFit rest
/-- What may follow a dollar sign: a name directly, or a repetition. -/
def startsBinder : List Tree → Bool
  | .leaf t :: _ => t.kind = .word && t.isAdjacent
  | .group o _ _ :: _ => o.text = "("
  | [] => false
end

/-- Takes one rule of a macro. -/
def macroRule : Skipper := fun ts => do
  let (pattern, rest) ← anyGroup ts
  let rest ← sign "=>" rest
  let (expansion, rest') ← anyGroup rest
  if rulesFit pattern.body && rulesFit expansion.body then some rest' else none

/-- Reads all of a list as rules with semicolons between them; one may follow the last. -/
def macroRulesFuel : Nat → List Tree → Bool
  | _, [] => true
  | 0, _ => false
  | fuel + 1, ts =>
    match macroRule ts with
    | none => ((sign ";" ts) matches some [])
    | some [] => true
    | some rest =>
      match sign ";" rest with
      | some after => macroRulesFuel fuel after
      | none => false

/-- Passes over the word that begins the definition of a macro, with its mark. -/
def definitionWord : Skipper := fun ts => do
  let rest ← word "macro_rules" ts
  let bang ← rest.head?
  let rest' ← sign "!" rest
  if bang.first.isAdjacent then some rest' else none

/-- Reads the definition of a macro. -/
def readMacroDefinition : Parser Reading := fun ts => do
  let rest ← definitionWord ts
  let (name, rest) ← anyWord rest
  let (g, rest) ← anyGroup rest
  if macroRulesFuel g.size g.body then
    if g.opener? = some "\x7b" then some ((some name.text, .plain .macroDefinition), rest)
    else
      let rest' ← sign ";" rest
      some ((some name.text, .plain .macroDefinition), rest')
  else none

/-! ## Statements -/

/-- Reads a local declaration. -/
def readLet (code : Code) : Parser Reading := fun ts => do
  let rest ← word "let" ts
  let rest ← code.pattern (optionally (word "mut") rest)
  let rest ← match sign ":" rest with
    | some after => skip (type code) after
    | none => some rest
  let rest ← optionalValue code rest
  let rest ← match word "else" rest with
    | some after => groupThat "\x7b" code.block after
    | none => some rest
  let rest' ← sign ";" rest
  some ((none, .plain .letDeclaration), rest')

/-- The readers of the items that may have a visibility. -/
def visibleReaders (code : Code) : List (Parser Reading) :=
  [readModule code, readStruct code, readUnion code, readEnum code, readTypeAlias code,
    readFunction code, readTrait code, readConstant code, readStatic code, readExternCrate,
    readForeignModule code, readUse]

/-- The readers of the items that have none. -/
def bareReaders (code : Code) : List (Parser Reading) :=
  [readImplementation code, readAssociatedType code, readMacroDefinition, readLet code,
    fun ts => (sign ";" ts).map fun rest => ((none, .plain .empty), rest)]

/-- Reads an item that begins with its own word. -/
def namedItem (code : Code) : Parser Item := fun ts =>
  let make (isPublic : Bool) : Reading × List Tree → Item × List Tree
    | ((name, body), rest) =>
      (⟨body, name, isPublic, textOf (consumed ts rest), (ts.head?.map Tree.start).getD 0⟩, rest)
  match visibility? ts with
  | some (isPublic, rest) =>
    ((visibleReaders code).findSome? fun p => p rest).map (make isPublic)
  | none => ((visibleReaders code ++ bareReaders code).findSome? fun p => p ts).map (make false)

/-- The words that begin a value that ends with a block, and needs no semicolon as a statement. -/
def blockWords : List String :=
  ["if", "match", "while", "loop", "for", "unsafe", "async", "const", "try", "gen"]

/-- A value that begins here may end with a block. -/
def beginsBlock (ts : List Tree) : Bool :=
  (oneWord blockWords ts).isSome || (group "\x7b" ts).isSome
    || (do sign ":" (← lifetime ts)).isSome

/-- Reads a value or a macro call as a statement. -/
def valueStatement (code : Code) : Parser Item := fun ts =>
  let start := (ts.head?.map Tree.start).getD 0
  let make (body : ItemBody) (rest : List Tree) : Item × List Tree :=
    (⟨body, none, false, textOf (consumed ts rest), start⟩, rest)
  if (definitionWord ts).isSome then none else
  match macroCall ts with
  | some (call, rest) =>
    match sign ";" rest with
    | some rest' => some (make (.expression (some call)) rest')
    | none =>
      match (do sign ";" (← code.value ts)) with
      | some rest' => some (make (.expression none) rest')
      | none => some (make (.macroCall call) rest)
  | none => do
    let rest ← code.value ts
    match sign ";" rest with
    | some rest' => some (make (.expression none) rest')
    | none => if beginsBlock ts then some (make (.expression none) rest) else none

/-- Takes the interpreter line of a file. -/
def interpreterLine : Parser Item
  | .leaf t :: rest =>
    if t.kind = .interpreter then
      some (⟨.plain .interpreter, none, false, t.text, t.start⟩, rest)
    else none
  | _ => none

/-- Reads one entry of a file. -/
def entry (code : Code) : Parser (List (Entry Item)) := fun ts =>
  let comments := commentsBefore ts
  match innerAttribute code ts with
  | some (a, rest) => some (comments ++ [.innerAttribute a], rest)
  | none =>
    match outerAttribute code ts with
    | some (a, rest) => some (comments ++ [.outerAttribute a], rest)
    | none =>
      (either interpreterLine (either (namedItem code) (valueStatement code)) ts).map
        fun r => (comments ++ [.item r.1], r.2)

/-- Reads all of a list as entries of a file. -/
def entriesFuel (code : Code) : Nat → List Tree → Option (List (Entry Item))
  | _, [] => some []
  | 0, _ => none
  | fuel + 1, ts => do
    let (es, rest) ← entry code ts
    (entriesFuel code fuel rest).map (es ++ ·)

/-- Reads all of a list as entries of a file. -/
def entries (code : Code) (ts : List Tree) : Option (List (Entry Item)) :=
  entriesFuel code ts.length ts

end Grammar
end Rust
end NodeSchema
