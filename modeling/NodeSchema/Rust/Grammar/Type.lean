import NodeSchema.Rust.Grammar.Basic
import NodeSchema.Rust.TypeNode

/-!
# The grammar of types

Reads a type off token trees.  A path is read segment by segment; what a path read so far may go
on with is its `Stem`.  The segments of a path are taken from its text: blanks are dropped and the
rest is cut at every `::`, so that a path that begins with a bracketed type keeps the brackets in
its segments.

`Grammar.type` reads a type with the bounds added to it by `+`, `Grammar.simpleType` one without.
-/

set_option autoImplicit false

namespace NodeSchema
namespace Rust
namespace Grammar

/-! ## Paths -/

/-- What a path may go on with, as far as it has been read. -/
structure Stem where
  /-- It may end here. -/
  ends : Bool
  /-- Generic arguments may follow. -/
  takesArguments : Bool
  /-- Parameters may follow. -/
  takesParameters : Bool
  /-- It may name a macro. -/
  takesBang : Bool

/-- An identifier, or a path that ends with one. -/
def Stem.name : Stem := ⟨true, true, true, true⟩
/-- A word such as `self` that only begins a path. -/
def Stem.opening : Stem := ⟨false, false, false, false⟩
/-- A primitive type. -/
def Stem.primitive : Stem := ⟨true, false, false, false⟩
/-- A word that is a name only with arguments or as a macro. -/
def Stem.reserved : Stem := ⟨false, true, false, true⟩
/-- A path with generic arguments. -/
def Stem.generic : Stem := ⟨true, false, false, false⟩

/-- The words that begin a path but are no path by themselves. -/
def openingWords : List String := ["self", "super", "crate"]

/-- The words that are names in some places only. -/
def softWords : List String := ["default", "union", "gen"]

/-- The words that may stand before `fn`. -/
def functionModifiers : List String := ["async", "default", "const", "unsafe", "gen"]

/-- The word may begin a function type. -/
def beginsFunction (text : String) : Bool :=
  text = "fn" || text = "extern" || functionModifiers.contains text

/-- The stem that a word at the front of a path gives. -/
def stemOf (text : String) : Stem :=
  if openingWords.contains text then .opening
  else if primitiveTypes.contains text then .primitive
  else if softWords.contains text then .reserved
  else .name

/-- Passes over a lifetime. -/
def lifetime : Skipper := fun ts => do
  let rest ← sign "'" ts
  skip anyWord rest

/-- Passes over names with commas between them, up to the closing angle bracket; a comma may follow
the last. -/
def angleListFuel (name : Skipper) : Nat → Skipper
  | 0, _ => none
  | fuel + 1, ts => do
    let rest ← name ts
    match sign "," rest with
    | none => sign ">" rest
    | some after => (sign ">" after).or (angleListFuel name fuel after)

/-- Passes over the lifetimes that a function type binds. -/
def boundLifetimes : Skipper := fun ts => do angleListFuel lifetime ts.length (← sign "<" ts)

/-- Passes over a bound that is no type: a lifetime, or the parameters that `use` captures. -/
def looseBound : Skipper := firstOf
  [ lifetime,
    fun ts => do
      let inside ← sign "<" (← word "use" ts)
      (angleListFuel (firstOf [lifetime, skip anyWord]) ts.length inside).or
        (sign ">" (optionally (sign ",") inside)) ]

/-- Passes over the modifiers of a function, of which an external linkage may name its kind. -/
def modifier : Skipper := firstOf
  [ oneWord functionModifiers,
    fun ts => do
      let rest ← word "extern" ts
      match rest with
      | .leaf t :: rest' => if t.kind = .string then some rest' else some rest
      | _ => some rest ]

/-- A token that is a literal by itself. -/
def isLiteral (t : Token) : Bool :=
  t.kind = .string || t.kind = .rawString || t.kind = .char || t.kind = .number
    || t.isWord "true" || t.isWord "false"

/-- Passes over a literal. -/
def literal : Skipper
  | .leaf t :: rest => if isLiteral t then some rest else none
  | _ => none

/-- Passes over a name that a macro binds, such as `$x`. -/
def metavariable : Skipper := fun ts => do
  let rest ← sign "$" ts
  let (t, rest') ← anyWord rest
  if t.isAdjacent then some rest' else none

/-- A trait may be written like this: a macro call and a primitive type name none. -/
def namesTrait : TypeNode → Bool
  | .macroCall _ _ => false
  | .path text [] => !primitiveTypes.contains text
  | _ => true

/-! ## Types -/

mutual

/-- A type with the bounds added to it. -/
def typeFuel (code : Code) : Nat → Parser TypeNode
  | 0, _ => none
  | fuel + 1, ts =>
    match looseBound ts with
    | some rest => do
      let rest' ← addedFuel code fuel (← sign "+" rest)
      some (.other (textOf (consumed ts rest')), rest')
    | none => do
      let (t, rest) ← simpleTypeFuel code fuel ts
      match sign "+" rest with
      | none => some (t, rest)
      | some after =>
        let rest' ← addedFuel code fuel after
        some (.other (textOf (consumed ts rest')), rest')

/-- What is added to a type, with `+` between. -/
def addedFuel (code : Code) : Nat → Skipper
  | 0, _ => none
  | fuel + 1, ts => do
    let rest ← match looseBound ts with
      | some rest => some rest
      | none => (simpleTypeFuel code fuel ts).map Prod.snd
    match sign "+" rest with
    | none => some rest
    | some after => addedFuel code fuel after

/-- The bounds of a parameter, with `+` between them; each may bind parameters of its own. -/
def boundsFuel (code : Code) : Nat → Skipper
  | 0, _ => none
  | fuel + 1, ts => do
    let rest ← match looseBound ts, word "for" ts with
      | some rest, _ => some rest
      | none, some after => do
        let after' ← parametersFuel code fuel after
        (simpleTypeFuel code fuel after').map Prod.snd
      | none, none => (simpleTypeFuel code fuel ts).map Prod.snd
    match sign "+" rest with
    | none => some rest
    | some after => boundsFuel code fuel after

/-- A type that may follow `dyn` or `impl`: a path, a function type, or a tuple that is not
empty. -/
def traitFuel (code : Code) : Nat → Parser TypeNode
  | 0, _ => none
  | fuel + 1, ts => do
    let (t, rest) ← match ts with
      | .leaf first :: rest =>
        if first.kind = .word && !beginsFunction first.text then
          pathFuel code fuel ts (stemOf first.text) [] rest
        else if first.kind = .word || first.isMark "<" || first.isMark ":"
            || (metavariable ts >>= sign "::").isSome then simpleTypeFuel code fuel ts
        else none
      | .group o body _ :: _ =>
        if o.text = "(" && !body.isEmpty then simpleTypeFuel code fuel ts else none
      | [] => none
    if namesTrait t then some (t, rest) else none

/-- A type without added bounds. -/
def simpleTypeFuel (code : Code) : Nat → Parser TypeNode
  | 0, _ => none
  | fuel + 1, ts =>
    let other (rest : List Tree) : Option (TypeNode × List Tree) :=
      some (.other (textOf (consumed ts rest)), rest)
    match ts with
    | [] => none
    | .group o body _ :: rest =>
      if o.text = "(" then
        if body.isEmpty then some (.tuple [], rest)
        else do
          let elements ← typesFuel code fuel body
          some (.tuple elements, rest)
      else if o.text = "[" then do
        let (_, after) ← typeFuel code fuel body
        match after with
        | [] => other rest
        | _ =>
          let value ← sign ";" after
          let done ← code.value value
          if done.isEmpty then other rest else none
      else none
    | .leaf t :: rest =>
      if t.kind = .word then
        if t.text = "impl" then
          let after := match word "for" rest with
            | some r => (parametersFuel code fuel r).getD rest
            | none => rest
          match traitFuel code fuel after with
          | some (_, rest') => other rest'
          | none => do
            let rest' ← match looseBound after with
              | some r => some r
              | none => (simpleTypeFuel code fuel after).map Prod.snd
            match after.head?, sign "+" rest' with
            | _, some added => do other (← addedFuel code fuel added)
            | some (.leaf m), none => if m.isMark "?" then other rest' else none
            | _, none => none
        else if t.text = "dyn" then
          match word "for" rest with
          | some r => do
            let after ← parametersFuel code fuel r
            let (_, rest') ← simpleTypeFuel code fuel after
            other rest'
          | none => do
            let (_, rest') ← traitFuel code fuel rest
            other rest'
        else if t.text = "for" then do
          let after ← boundLifetimes rest
          match traitFuel code fuel after with
          | some (.other _, rest') => other rest'
          | _ => none
        else if t.text = "use" then none
        else if beginsFunction t.text then
          match word "fn" (many modifier ts) with
          | some after => do
            let rest' ← groupThat "(" code.parameters after
            let rest'' ← returnsFuel code fuel rest'
            other rest''
          | none =>
            if softWords.contains t.text then
              pathFuel code fuel ts .reserved [] rest
            else none
        else pathFuel code fuel ts (stemOf t.text) [] rest
      else if t.isMark "&" then do
        let after := optionally (word "mut") (optionally lifetime rest)
        let (_, rest') ← simpleTypeFuel code fuel after
        other rest'
      else if t.isMark "*" then do
        let after ← oneWord ["const", "mut"] rest
        let (_, rest') ← simpleTypeFuel code fuel after
        other rest'
      else if t.isMark "!" then other rest
      else if t.isMark "?" then do
        let (_, rest') ← simpleTypeFuel code fuel rest
        other rest'
      else if t.isMark "$" then do
        let rest' ← metavariable ts
        match sign "::" rest' with
        | none => other rest'
        | some _ => pathFuel code fuel ts .opening [] rest'
      else if t.isMark "<" then do
        let rest' ← bracketedFuel code fuel rest
        pathFuel code fuel ts .opening [] rest'
      else if t.isMark ":" then pathFuel code fuel ts .opening [] ts
      else none

/-- The inside of a bracketed type, with its closing bracket: a type, or a type and the trait it
is seen as. -/
def bracketedFuel (code : Code) : Nat → Skipper
  | 0, _ => none
  | fuel + 1, ts => do
    let (_, rest) ← typeFuel code fuel ts
    match word "as" rest with
    | none => sign ">" rest
    | some after =>
      let (_, rest') ← typeFuel code fuel after
      sign ">" rest'

/-- Goes on with a path that began at `start` and was read up to `ts`; `arguments` are those read
last. -/
def pathFuel (code : Code) : Nat → List Tree → Stem → List TypeNode → Parser TypeNode
  | 0, _, _, _, _ => none
  | fuel + 1, start, stem, arguments, ts =>
    match sign "::" ts with
    | some after =>
      match anyWord after with
      | some (t, rest) =>
        pathFuel code fuel start (if t.text = "super" then .opening else .name) [] rest
      | none => do
        let inside ← sign "<" after
        let (_, rest) ← argumentsFuel code fuel inside
        pathFuel code fuel start .opening [] rest
    | none =>
      let path := textOf (consumed start ts)
      let finish : Option (TypeNode × List Tree) :=
        if stem.ends then some (.path path arguments, ts) else none
      match ts with
      | .leaf t :: rest =>
        if t.isMark "<" && stem.takesArguments then do
          let (as, rest') ← argumentsFuel code fuel rest
          match sign "::" rest' with
          | some _ => pathFuel code fuel start .generic as rest'
          | none => some (.path path as, rest')
        else if t.isMark "!" && stem.takesBang then
          match anyGroup rest with
          | some (g, rest') =>
            some (.macroCall path g.joined.unplaced, rest')
          | none => finish
        else finish
      | .group o body _ :: rest =>
        if o.text = "(" && stem.takesParameters && code.parameters body then do
          let rest' ← returnsFuel code fuel rest
          some (.other (textOf (consumed start rest')), rest')
        else finish
      | [] => finish

/-- The type that a function returns, if it tells one. -/
def returnsFuel (code : Code) : Nat → Skipper
  | 0, _ => none
  | fuel + 1, ts =>
    match sign "->" ts with
    | none => some ts
    | some after => (typeFuel code fuel after).map Prod.snd

/-- Generic arguments with their closing bracket; at least one, and a comma may follow the
last. -/
def argumentsFuel (code : Code) : Nat → Parser (List TypeNode)
  | 0, _ => none
  | fuel + 1, ts => do
    let (as, rest) ← argumentFuel code fuel ts
    match sign "," rest with
    | none =>
      let rest' ← sign ">" rest
      some (as, rest')
    | some after =>
      match sign ">" after with
      | some rest' => some (as, rest')
      | none =>
        let (bs, rest') ← argumentsFuel code fuel after
        some (as ++ bs, rest')

/-- One generic argument, which counts as two if a bound follows it. -/
def argumentFuel (code : Code) : Nat → Parser (List TypeNode)
  | 0, _ => none
  | fuel + 1, ts => do
    let (a, rest) ← plainArgumentFuel code fuel ts
    match sign "::" rest, sign ":" rest with
    | none, some after =>
      let rest' ← boundsFuel code fuel after
      some ([a, .argument (textOf (consumed rest rest'))], rest')
    | _, _ => some ([a], rest)

/-- One generic argument without the bound that may follow it. -/
def plainArgumentFuel (code : Code) : Nat → Parser TypeNode
  | 0, _ => none
  | fuel + 1, ts =>
    let argument (rest : List Tree) : Option (TypeNode × List Tree) :=
      some (.argument (textOf (consumed ts rest)), rest)
    let orBinding : Option (TypeNode × List Tree) := do
      let (t, rest) ← typeFuel code fuel ts
      match t, sign "=" rest with
      | .path text _, some value =>
        if (segmentsOf text).length = 1 then
          let (_, rest') ← typeFuel code fuel value
          argument rest'
        else some (t, rest)
      | _, _ => some (t, rest)
    match literal ts with
    | some rest => argument rest
    | none =>
      match groupThat "\x7b" code.block ts with
      | some rest => argument rest
      | none =>
        match lifetime ts with
        | some rest =>
          match sign "+" rest with
          | some _ => orBinding
          | none =>
            match (do groupThat "\x7b" code.block (← sign ":" rest)) with
            | some rest' => argument rest'
            | none => argument rest
        | none => orBinding

/-- All of a list as one or more types with commas between them; a comma may follow the last. -/
def typesFuel (code : Code) : Nat → List Tree → Option (List TypeNode)
  | 0, _ => none
  | fuel + 1, ts => do
    let (t, rest) ← typeFuel code fuel ts
    match rest with
    | [] => some [t]
    | _ =>
      let after ← sign "," rest
      match after with
      | [] => some [t]
      | _ => (typesFuel code fuel after).map (t :: ·)

/-- The parameters between angle brackets, with the brackets. -/
def parametersFuel (code : Code) : Nat → Skipper
  | 0, _ => none
  | fuel + 1, ts => do
    let inside ← sign "<" ts
    parameterListFuel code fuel inside

/-- Parameters up to the closing angle bracket; at least one, and a comma may follow the last. -/
def parameterListFuel (code : Code) : Nat → Skipper
  | 0, _ => none
  | fuel + 1, ts => do
    let rest ← parameterFuel code fuel ts
    match sign "," rest with
    | none => sign ">" rest
    | some after =>
      match sign ">" after with
      | some rest' => some rest'
      | none => parameterListFuel code fuel after

/-- One parameter: a name, a lifetime or a constant, each with what it is bound by. -/
def parameterFuel (code : Code) : Nat → Skipper
  | 0, _ => none
  | fuel + 1, ts =>
    match (do groupThat "[" (fun _ => true) (← sign "#" ts)) with
    | some rest => parameterFuel code fuel rest
    | none =>
      match metavariable ts with
      | some rest => some rest
      | none =>
        match lifetime ts with
        | some rest =>
          match sign ":" rest with
          | some after => boundsFuel code fuel after
          | none => some rest
        | none => do
          let (t, rest) ← anyWord ts
          if t.text = "const" then
            let (_, rest) ← anyWord rest
            let after ← sign ":" rest
            let (_, rest) ← typeFuel code fuel after
            match sign "=" rest with
            | none => some rest
            | some after =>
              firstOf
                [ groupThat "\x7b" code.block, literal,
                  fun ts => do literal (← sign "-" ts), fun ts => skip anyWord ts ] after
          else
            let rest ← match sign ":" rest with
              | some after => boundsFuel code fuel after
              | none => some rest
            match sign "=" rest with
            | none => some rest
            | some after => (typeFuel code fuel after).map Prod.snd

end

/-- Enough fuel for the types at the front of a list: no reading goes on for more than a few
steps without taking a token. -/
def typeFuelOf (ts : List Tree) : Nat := 8 * Tree.sizeList ts + 8

/-- A type with the bounds added to it. -/
def type (code : Code) : Parser TypeNode := fun ts => typeFuel code (typeFuelOf ts) ts

/-- A type without added bounds. -/
def simpleType (code : Code) : Parser TypeNode := fun ts => simpleTypeFuel code (typeFuelOf ts) ts

/-- Bounds with `+` between them. -/
def bounds (code : Code) : Skipper := fun ts => boundsFuel code (typeFuelOf ts) ts

/-- The parameters of a generic item, in angle brackets. -/
def typeParameters (code : Code) : Skipper := fun ts => parametersFuel code (typeFuelOf ts) ts

/-- Generic arguments, after their opening bracket. -/
def typeArguments (code : Code) : Skipper := fun ts =>
  (argumentsFuel code (typeFuelOf ts) ts).map Prod.snd

end Grammar
end Rust
end NodeSchema
