import NodeSchema.Rust.Grammar.Item

/-!
# The grammar of values and patterns

Declarations only delimit values, patterns and blocks, so this module recognises them and keeps
nothing.  Operators are read as a flat chain of operands: which of them bind more tightly does not
change where a value ends.

`inner` is the code of the depth below: what stands inside delimiters is left to it.
-/

set_option autoImplicit false

namespace NodeSchema
namespace Rust
namespace Grammar

/-- The binary operators, longer ones first. -/
def binaryOperators : List String :=
  ["<<=", ">>=", "&&", "||", "==", "!=", "<=", ">=", "+=", "-=", "*=", "/=", "%=", "^=", "&=",
    "|=", "<<", ">>", "+", "-", "*", "/", "%", "^", "&", "|", "<", ">", "="]

/-- The operators of ranges, longer ones first. -/
def rangeOperators : List String := ["...", "..=", ".."]

/-- Passes over a range operator. -/
def rangeSign : Skipper := firstOf (rangeOperators.map sign)

/-- Passes over a binary operator; the arrows are none. -/
def binarySign : Skipper := fun ts =>
  if (sign "=>" ts).isSome || (sign "->" ts).isSome then none
  else firstOf (binaryOperators.map sign) ts

/-- Passes over any number of outer attributes. -/
def skipAttributes (inner : Code) (ts : List Tree) : List Tree := (outerAttributes inner ts).2

/-- All of a list is things with commas between them. -/
def isCommaList (p : Skipper) (ts : List Tree) : Bool := (commaList (unit p) ts).isSome

/-! ## Insides of delimiters -/

/-- The inside of parentheses around values. -/
def isValueList (inner : Code) : List Tree → Bool :=
  isCommaList fun ts => inner.value (skipAttributes inner ts)

/-- The inside of an array. -/
def isArray (inner : Code) (ts : List Tree) : Bool :=
  isValueList inner ts
    || (do
      let rest ← inner.value (skipAttributes inner ts)
      inner.value (← sign ";" rest)) matches some []

/-- The inside of the braces of a struct value. -/
def isFieldValues (inner : Code) : List Tree → Bool :=
  isCommaList fun ts =>
    let ts := skipAttributes inner ts
    match sign ".." ts with
    | some rest => inner.value rest
    | none =>
      match ts with
      | .leaf t :: rest =>
        if t.kind = .word || t.kind = .number then
          match sign "::" rest, sign ":" rest with
          | none, some after => inner.value after
          | _, _ => if t.kind = .word then some rest else none
        else none
      | _ => none

/-- The inside of the braces of a struct pattern. -/
def isFieldPatterns (inner : Code) : List Tree → Bool :=
  isCommaList fun ts =>
    let ts := skipAttributes inner ts
    match sign ".." ts with
    | some rest => some rest
    | none =>
      match (do
        let (t, rest) ← anyWord ts
        if t.isWord "ref" || t.isWord "mut" then none else inner.pattern (← sign ":" rest)) with
      | some rest => some rest
      | none => skip anyWord (optionally (word "mut") (optionally (word "ref") ts))

/-- The inside of the braces of a match: arms, of which only those that end with a block may lack
the comma. -/
def areArmsFuel (inner : Code) : Nat → List Tree → Bool
  | _, [] => true
  | 0, _ => false
  | fuel + 1, ts =>
    match (do
      let rest ← inner.pattern (skipAttributes inner ts)
      let rest ← match word "if" rest with
        | some after => inner.value after
        | none => some rest
      let body ← sign "=>" rest
      match (match groupThat "\x7b" inner.block body with
          | some rest' => if (sign "," rest').isSome || rest'.isEmpty then none else some rest'
          | none => none) with
      | some rest' =>
        match inner.value body with
        | some rest'' => some (if (sign "," rest'').isSome then rest'' else rest', body)
        | none => some (rest', body)
      | none => (inner.value body).map fun rest' => (rest', body)) with
    | none => false
    | some (rest, body) =>
      match rest with
      | [] => true
      | _ =>
        match sign "," rest with
        | some after => areArmsFuel inner fuel after
        | none => if beginsBlock body then areArmsFuel inner fuel rest else false

/-- The inside of the braces of a match. -/
def areArms (inner : Code) (ts : List Tree) : Bool := areArmsFuel inner ts.length ts

/-! ## Patterns -/

/-- A path in a value: words, with generic arguments after a double colon. -/
def valuePath (inner : Code) : Skipper := fun ts => do
  let rest ← match sign "<" ts with
    | some inside => do
      let rest ← skip (type inner) inside
      let rest ← match word "as" rest with
        | some after => skip (type inner) after
        | none => some rest
      pathTail (← sign ">" rest)
    | none => firstOf [metavariable, skip anyWord, pathTail] ts
  some (many (fun ts => do
    let after ← sign "::" ts
    firstOf [skip anyWord, fun ts => do typeArguments inner (← sign "<" ts)] after) rest)

/-- The end of a range in a pattern. -/
def rangeEnd (inner : Code) : Skipper := fun ts =>
  match ts with
  | .leaf t :: rest =>
    if isLiteral t then some rest
    else if t.isMark "-" then literal rest
    else if t.kind = .word then valuePath inner ts
    else none
  | _ => none

mutual
/-- A pattern with its alternatives. -/
def patternFuel (inner : Code) : Nat → Skipper
  | 0, _ => none
  | fuel + 1, ts => do
    let rest ← plainPatternFuel inner fuel (optionally (sign "|") ts)
    match sign "||" rest, sign "|" rest with
    | none, some after => patternFuel inner fuel after
    | _, _ => some rest

/-- A pattern without alternatives. -/
def plainPatternFuel (inner : Code) : Nat → Skipper
  | 0, _ => none
  | fuel + 1, ts =>
    let closed : Skipper := fun rest =>
      match rangeSign rest with
      | some after => some ((rangeEnd inner after).getD after)
      | none => some rest
    match ts with
    | [] => none
    | .group o body _ :: rest =>
      if o.text = "(" || o.text = "[" then
        if isCommaList inner.pattern body then some rest else none
      else none
    | .leaf t :: rest =>
      if isLiteral t then closed rest
      else if t.isMark "-" then do closed (← literal rest)
      else if t.isMark "&" then plainPatternFuel inner fuel (optionally (word "mut") rest)
      else if t.isMark "." then do
        let rest' ← rangeSign ts
        some ((rangeEnd inner rest').getD rest')
      else if t.isWord "ref" || t.isWord "mut" || t.isWord "box" then
        plainPatternFuel inner fuel rest
      else if t.isWord "const" then groupThat "\x7b" inner.block rest
      else do
        let after ← valuePath inner ts
        match after with
        | .group o body _ :: rest' =>
          if o.text = "(" then if isCommaList inner.pattern body then some rest' else none
          else if o.text = "\x7b" && isFieldPatterns inner body then some rest'
          else closed after
        | _ =>
          match sign "@" after with
          | some rest' => plainPatternFuel inner fuel rest'
          | none =>
            match (do anyGroup (← sign "!" after)) with
            | some (_, rest') => some rest'
            | none => closed after
end

/-! ## Parameters -/

/-- One parameter of a function. -/
def parameter (here : Code) : Skipper := fun ts =>
  let ts := skipAttributes here ts
  firstOf
    [ fun ts => do
        let rest ← here.pattern ts
        if (sign "::" rest).isSome then none
        else
          let after ← sign ":" rest
          firstOf [sign "...", skip (type here)] after,
      fun ts => do
        word "self" (optionally (word "mut") (optionally lifetime (optionally (sign "&") ts))),
      sign "...",
      skip (type here) ] ts

/-- The parameters of a closure, up to the bar that ends them. -/
def closureParameters (inner : Code) : Nat → Skipper
  | 0, _ => none
  | fuel + 1, ts =>
    match sign "|" ts with
    | some rest => some rest
    | none => do
      let rest ← plainPatternFuel inner (ts.length + 1) ts
      let rest ← match sign ":" rest with
        | some after => skip (type inner) after
        | none => some rest
      match sign "," rest with
      | some after => closureParameters inner fuel after
      | none => sign "|" rest

/-! ## Values -/

/-- The words that begin no name in a value. -/
def valueWords : List String :=
  ["async", "break", "const", "continue", "crate", "enum", "extern", "fn", "for", "if", "impl",
    "let", "loop", "match", "mod", "move", "pub", "return", "static", "struct", "super", "trait",
    "try", "type", "unsafe", "use", "while", "yield"]

/-- Passes over what is applied to an operand: calls, indices, fields and question marks. -/
def applied (inner : Code) (ts : List Tree) : List Tree :=
  many (fun ts =>
    match ts with
    | .group o body _ :: rest =>
      if o.text = "(" then if isValueList inner body then some rest else none
      else if o.text = "[" then
        if (inner.value body) matches some [] then some rest else none
      else none
    | .leaf t :: rest =>
      if t.isMark "?" then some rest
      else if t.isMark "." && (sign ".." ts).isNone then
        match rest with
        | .leaf m :: after =>
          if m.kind = .number then some after
          else if m.kind = .word then
            match (do typeArguments inner (← sign "<" (← sign "::" after))) with
            | some after' => some after'
            | none => some after
          else none
        | _ => none
      else none
    | [] => none) ts

/-- A path as an operand: by itself, as a macro call, or as a struct value. -/
def nameOperand (inner : Code) (structs : Bool) : Skipper := fun ts => do
  let rest ← valuePath inner ts
  match (do anyGroup (← sign "!" rest)) with
  | some (_, rest') => some (applied inner rest')
  | none =>
    match rest with
    | .group o body _ :: rest' =>
      if o.text = "\x7b" && structs && isFieldValues inner body then some (applied inner rest')
      else some (applied inner rest)
    | _ => some (applied inner rest)

mutual
/-- A value; `structs` tells whether a struct value may stand unparenthesised. -/
def valueFuel (inner : Code) : Nat → Bool → Skipper
  | 0, _, _ => none
  | fuel + 1, structs, ts => do
    let rest ← operandFuel inner fuel structs ts
    operatorsFuel inner fuel structs rest

/-- The operators and operands that follow an operand. -/
def operatorsFuel (inner : Code) : Nat → Bool → Skipper
  | 0, _, _ => none
  | fuel + 1, structs, ts =>
    match word "as" ts with
    | some after => do
      let rest ← skip (simpleType inner) after
      operatorsFuel inner fuel structs rest
    | none =>
      match rangeSign ts with
      | some after =>
        match operandFuel inner fuel structs after with
        | some rest => operatorsFuel inner fuel structs rest
        | none => some after
      | none =>
        match binarySign ts with
        | some after => do
          let rest ← operandFuel inner fuel structs after
          operatorsFuel inner fuel structs rest
        | none => some ts

/-- An operand with what is applied to it. -/
def operandFuel (inner : Code) : Nat → Bool → Skipper
  | 0, _, _ => none
  | fuel + 1, structs, ts =>
    match ts with
    | [] => none
    | .group o body _ :: rest =>
      if o.text = "(" then
        if isValueList inner body then some (applied inner rest) else none
      else if o.text = "[" then if isArray inner body then some (applied inner rest) else none
      else if inner.block body then some (applied inner rest) else none
    | .leaf t :: rest =>
      if isLiteral t then some (applied inner rest)
      else if t.isMark "-" || t.isMark "*" || t.isMark "!" then
        operandFuel inner fuel structs rest
      else if t.isMark "&" then
        let after := match (do oneWord ["const", "mut"] (← word "raw" rest)) with
          | some after => after
          | none => optionally (word "mut") rest
        operandFuel inner fuel structs after
      else if t.isMark "." then do
        let after ← rangeSign ts
        match operandFuel inner fuel structs after with
        | some rest' => some rest'
        | none => some after
      else if t.isMark "'" then do
        let after ← lifetime ts
        let rest' ← sign ":" after
        if beginsBlock rest' then operandFuel inner fuel structs rest' else none
      else if t.isMark "|" then closureFuel inner fuel structs ts
      else if t.isMark "#" then do
        let (_, rest') ← group "[" rest
        operandFuel inner fuel structs rest'
      else if t.kind = .word then
        if t.text = "if" then conditionalFuel inner fuel rest
        else if t.text = "let" then do
          let after ← patternFuel inner (ts.length + 1) rest
          operandFuel inner fuel false (← sign "=" after)
        else if t.text = "match" then do
          let after ← valueFuel inner fuel false rest
          let rest' ← groupThat "\x7b" (areArms inner) after
          some (applied inner rest')
        else if t.text = "while" then do
          groupThat "\x7b" inner.block (← valueFuel inner fuel false rest)
        else if t.text = "loop" then groupThat "\x7b" inner.block rest
        else if t.text = "for" then do
          let after ← patternFuel inner (ts.length + 1) rest
          let after ← word "in" after
          groupThat "\x7b" inner.block (← valueFuel inner fuel false after)
        else if t.text = "unsafe" || t.text = "const" || t.text = "try" then do
          let rest' ← groupThat "\x7b" inner.block rest
          some (applied inner rest')
        else if t.text = "async" || t.text = "static" || t.text = "move" then
          match groupThat "\x7b" inner.block (optionally (word "move") rest) with
          | some rest' => if t.text = "async" then some (applied inner rest') else none
          | none =>
            closureFuel inner fuel structs (many (oneWord ["static", "async", "move"]) ts)
        else if t.text = "return" || t.text = "yield" then
          some ((valueFuel inner fuel structs rest).getD rest)
        else if t.text = "break" then
          let after := optionally lifetime rest
          some ((valueFuel inner fuel structs after).getD after)
        else if t.text = "continue" then some (optionally lifetime rest)
        else if valueWords.contains t.text && (sign "::" rest).isNone then none
        else nameOperand inner structs ts
      else nameOperand inner structs ts

/-- What may follow the word `if`. -/
def conditionalFuel (inner : Code) : Nat → Skipper
  | 0, _ => none
  | fuel + 1, ts => do
    let rest ← groupThat "\x7b" inner.block (← valueFuel inner fuel false ts)
    match word "else" rest with
    | none => some (applied inner rest)
    | some after =>
      match word "if" after with
      | some rest' => conditionalFuel inner fuel rest'
      | none => do
        let rest' ← groupThat "\x7b" inner.block after
        some (applied inner rest')

/-- A closure from its bar on. -/
def closureFuel (inner : Code) : Nat → Bool → Skipper
  | 0, _, _ => none
  | fuel + 1, structs, ts => do
    let rest ← closureParameters inner (ts.length + 1) (← sign "|" ts)
    match sign "->" rest with
    | some after => do
      let rest' ← skip (type inner) after
      groupThat "\x7b" inner.block rest'
    | none => valueFuel inner fuel structs rest
end

/-! ## Blocks -/

/-- All of a list is the statements of a block, of which the last may be a bare value. -/
def isBlockFuel (here : Code) : Nat → List Tree → Bool
  | _, [] => true
  | 0, _ => false
  | fuel + 1, ts =>
    if (here.value ts) matches some [] then true
    else
      match entry here ts with
      | some (_, rest) => isBlockFuel here fuel rest
      | none => false

/-! ## The code of a depth of nesting -/

/-- The code of one more level of nesting. -/
def Code.next (inner : Code) : Code :=
  let here : Code :=
    { inner with
      value := fun ts => valueFuel inner (4 * Tree.sizeList ts + 4) true ts
      pattern := fun ts => patternFuel inner (4 * Tree.sizeList ts + 4) ts }
  { here with
    block := fun ts => isBlockFuel here ts.length ts
    parameters := isCommaList (parameter here)
    declarations := fun ts => (entries here ts).isSome }

/-- The code of a depth of nesting. -/
def Code.ofDepth : Nat → Code
  | 0 => .none
  | n + 1 => Code.next (Code.ofDepth n)

end Grammar
end Rust
end NodeSchema
