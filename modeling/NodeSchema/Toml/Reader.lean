import NodeSchema.Calendar
import NodeSchema.Toml.Value

/-!
# Reading TOML

Reads the statements of a document: entries, headers of tables and headers of arrays of tables.
What statements mean together is the matter of `NodeSchema.Toml.Document`.

The readers take a value from the front of a text and give the rest, or refuse.  A whole number
with too many digits is refused apart from all else.
-/

set_option autoImplicit false

namespace NodeSchema
namespace Toml

/-- Takes a value from the front of a text. -/
abbrev Reader (α : Type) := List Char → Except Refusal (α × List Char)

/-! ## Blanks and comments -/

def isTomlBlank (c : Char) : Bool := c = ' ' || c = '\t'

/-- Drops blanks within a line. -/
def skipBlanks (cs : List Char) : List Char := cs.dropWhile isTomlBlank

/-- A control character, the tab apart. -/
def isControl (c : Char) : Bool := (c.toNat < 32 && c ≠ '\t') || c.toNat = 127

/-- Drops a comment, up to the end of its line. -/
def skipComment : Reader Unit
  | '#' :: rest =>
    let line := rest.takeWhile (· ≠ '\n')
    if line.any isControl then .error .malformed else .ok ((), rest.drop line.length)
  | cs => .ok ((), cs)

/-- Drops blanks, line ends and comments. -/
def skipLines : Nat → Reader Unit
  | 0, cs => .ok ((), cs)
  | fuel + 1, cs =>
    match cs.dropWhile fun c => isTomlBlank c || c = '\n' with
    | '#' :: rest =>
      match skipComment ('#' :: rest) with
      | .ok (_, after) => skipLines fuel after
      | .error e => .error e
    | after => .ok ((), after)

/-! ## Strings -/

def hexValue? (c : Char) : Option Nat :=
  if c.isDigit then some (c.toNat - 48)
  else if 'a' ≤ c && c ≤ 'f' then some (c.toNat - 87)
  else if 'A' ≤ c && c ≤ 'F' then some (c.toNat - 55)
  else none

/-- The character whose number is written with hexadecimal digits. -/
def hexChar? (ds : List Char) : Option Char := do
  let vs ← ds.mapM hexValue?
  let n := vs.foldl (fun n d => n * 16 + d) 0
  if n < 0xD800 || (0xE000 ≤ n && n < 0x110000) then some (Char.ofNat n) else none

/-- Reads what follows a backslash: the characters it stands for, and how many it takes. -/
def escape (isMultiline : Bool) : List Char → Option (List Char × Nat)
  | [] => none
  | c :: rest =>
    if isMultiline && (c = ' ' || c = '\t' || c = '\n') then
      let blanks := ((c :: rest).takeWhile isTomlBlank).length
      let after := (c :: rest).drop blanks
      match after with
      | [] => some ([], blanks)
      | '\n' :: _ =>
        some ([], blanks + (after.takeWhile fun c => isTomlBlank c || c = '\n').length)
      | _ => none
    else if c = 'u' then
      if rest.length < 4 then none else (hexChar? (rest.take 4)).map fun u => ([u], 5)
    else if c = 'U' then
      if rest.length < 8 then none else (hexChar? (rest.take 8)).map fun u => ([u], 9)
    else if c = 'b' then some ([Char.ofNat 8], 1)
    else if c = 't' then some (['\t'], 1)
    else if c = 'n' then some (['\n'], 1)
    else if c = 'f' then some ([Char.ofNat 12], 1)
    else if c = 'r' then some (['\r'], 1)
    else if c = '"' || c = '\\' then some ([c], 1)
    else none

/-- Reads a string with escapes up to its closing quotes, first passing over the `skip` characters
of an escape. -/
def basicFrom (isMultiline : Bool) : Nat → Reader (List Char)
  | _, [] => .error .malformed
  | skip + 1, _ :: rest => basicFrom isMultiline skip rest
  | 0, c :: rest =>
    let more : Except Refusal (List Char × List Char) := do
      let (cs, after) ← basicFrom isMultiline 0 rest
      .ok (c :: cs, after)
    if c = '"' then
      if !isMultiline then .ok ([], rest)
      else
        match rest with
        | '"' :: '"' :: after => .ok ([], after)
        | _ => more
    else if c = '\\' then
      match escape isMultiline rest with
      | none => .error .malformed
      | some (us, width) => do
        let (cs, after) ← basicFrom isMultiline width rest
        .ok (us ++ cs, after)
    else if isControl c && !(isMultiline && c = '\n') then .error .malformed
    else more

/-- Reads a string without escapes up to its closing quotes. -/
def literalFrom (isMultiline : Bool) : Reader (List Char)
  | [] => .error .malformed
  | c :: rest =>
    let more : Except Refusal (List Char × List Char) := do
      let (cs, after) ← literalFrom isMultiline rest
      .ok (c :: cs, after)
    if c = '\'' then
      if !isMultiline then .ok ([], rest)
      else
        match rest with
        | '\'' :: '\'' :: after => .ok ([], after)
        | _ => more
    else if isControl c && !(isMultiline && c = '\n') then .error .malformed
    else more

/-- Up to two quotes may follow the closing ones, and belong to the string. -/
def extraQuotes (quote : Char) : List Char → List Char × List Char
  | a :: b :: rest =>
    if a = quote && b = quote then ([a, b], rest)
    else if a = quote then ([a], b :: rest)
    else ([], a :: b :: rest)
  | [a] => if a = quote then ([a], []) else ([], [a])
  | [] => ([], [])

/-- A line feed right after opening quotes is dropped. -/
def dropFirstNewline : List Char → List Char
  | '\n' :: rest => rest
  | cs => cs

/-- Reads a string over several lines, after its opening quotes. -/
def multiline (quote : Char) (body : Reader (List Char)) : Reader String := fun cs => do
  let (text, rest) ← body (dropFirstNewline cs)
  let (extra, rest) := extraQuotes quote rest
  .ok (String.ofList (text ++ extra), rest)

/-! ## Keys -/

def isBareKeyChar (c : Char) : Bool := c.isAlphanum || c = '-' || c = '_'

/-- Reads one name of a key. -/
def keyPart : Reader String
  | '\'' :: rest => do
    let (s, after) ← literalFrom false rest
    .ok (String.ofList s, after)
  | '"' :: rest => do
    let (s, after) ← basicFrom false 0 rest
    .ok (String.ofList s, after)
  | cs =>
    let name := cs.takeWhile isBareKeyChar
    if name.isEmpty then .error .malformed
    else .ok (String.ofList name, cs.drop name.length)

/-- Reads a dotted key and the blanks after it. -/
def keyFuel : Nat → Reader Key
  | 0, _ => .error .malformed
  | fuel + 1, cs => do
    let (name, rest) ← keyPart cs
    match skipBlanks rest with
    | '.' :: after => do
      let (names, rest) ← keyFuel fuel (skipBlanks after)
      .ok (name :: names, rest)
    | rest => .ok ([name], rest)

/-- Reads a dotted key and the blanks after it. -/
def key : Reader Key := fun cs => keyFuel (cs.length + 1) cs

/-! ## Numbers, dates and times -/

/-- The length of digits between which single underscores may stand. -/
def digitRun (isDigit : Char → Bool) : List Char → Nat
  | c :: rest =>
    if isDigit c then 1 + digitRun isDigit rest
    else if c = '_' then
      match rest with
      | d :: _ => if isDigit d then 1 + digitRun isDigit rest else 0
      | [] => 0
    else 0
  | [] => 0

/-- The length of digits, which begin with a digit. -/
def digits (isDigit : Char → Bool) (cs : List Char) : Nat :=
  match cs with
  | c :: _ => if isDigit c then digitRun isDigit cs else 0
  | [] => 0

/-- The two characters are a number from the first limit to the second. -/
def isTwo (low high : Nat) (a b : Char) : Bool :=
  a.isDigit && b.isDigit &&
    (let n := (a.toNat - 48) * 10 + (b.toNat - 48)
     low ≤ n && n ≤ high)

/-- The length of a time of day. -/
def timeLength : List Char → Option Nat
  | a :: b :: ':' :: c :: d :: ':' :: e :: f :: rest =>
    if isTwo 0 23 a b && isTwo 0 59 c d && isTwo 0 59 e f then
      match rest with
      | '.' :: more =>
        let n := (more.takeWhile Char.isDigit).length
        some (if n = 0 then 8 else 9 + n)
      | _ => some 8
    else none
  | _ => none

/-- The length of an offset from universal time. -/
def offsetLength : List Char → Nat
  | 'Z' :: _ | 'z' :: _ => 1
  | s :: a :: b :: ':' :: c :: d :: _ =>
    if (s = '+' || s = '-') && isTwo 0 23 a b && isTwo 0 59 c d then 6 else 0
  | _ => 0

/-- The length of a date with the time that may follow it, and whether the date exists. -/
def dateLength : List Char → Option (Nat × Bool)
  | y1 :: y2 :: y3 :: y4 :: '-' :: m1 :: m2 :: '-' :: d1 :: d2 :: rest =>
    if [y1, y2, y3, y4].all Char.isDigit && isTwo 1 12 m1 m2 && isTwo 1 31 d1 d2 then
      let date : Date := ⟨numeral [y1, y2, y3, y4], numeral [m1, m2], numeral [d1, d2]⟩
      match rest with
      | s :: more =>
        if s = 'T' || s = 't' || s = ' ' then
          match timeLength more with
          | some n => some (11 + n + offsetLength (more.drop n), date.isValid)
          | none => some (10, date.isValid)
        else some (10, date.isValid)
      | [] => some (10, date.isValid)
    else none
  | _ => none

/-- The most digits that a whole number may have. -/
def maxDigits : Nat := 4300

/-- The length of the sign of a number. -/
def signLength : List Char → Nat
  | '+' :: _ | '-' :: _ => 1
  | _ => 0

/-- Reads a number. -/
def number (cs : List Char) : Option (Except Refusal (List Char)) :=
  let based (isDigit : Char → Bool) (rest : List Char) : Option (Except Refusal (List Char)) :=
    let n := digits isDigit rest
    if n = 0 then some (.ok (cs.drop 1)) else some (.ok (rest.drop n))
  match cs with
  | '0' :: 'x' :: rest => based (fun c => (hexValue? c).isSome) rest
  | '0' :: 'b' :: rest => based (fun c => c = '0' || c = '1') rest
  | '0' :: 'o' :: rest => based (fun c => '0' ≤ c && c ≤ '7') rest
  | _ =>
    let sign := signLength cs
    let body := cs.drop sign
    let whole := match body with
      | '0' :: _ => 1
      | _ => digits Char.isDigit body
    if whole = 0 then none
    else
      let after := body.drop whole
      let fraction := match after with
        | '.' :: more =>
          let n := digits Char.isDigit more
          if n = 0 then 0 else n + 1
        | _ => 0
      let after' := after.drop fraction
      let exponent := match after' with
        | e :: more =>
          if e = 'e' || e = 'E' then
            let s := signLength more
            let n := digits Char.isDigit (more.drop s)
            if n = 0 then 0 else 1 + s + n
          else 0
        | [] => 0
      if fraction = 0 && exponent = 0
          && maxDigits < ((body.take whole).filter Char.isDigit).length then
        some (.error (.fault .badValue))
      else some (.ok (after'.drop exponent))

/-- The words that are values. -/
def words : List (List Char) :=
  ["inf", "nan", "-inf", "+inf", "-nan", "+nan"].map String.toList

/-- Reads a date, a time, a number or a word. -/
def scalar : Reader Value := fun cs =>
  match dateLength cs with
  | some (n, true) => .ok (.scalar, cs.drop n)
  | some (_, false) => .error .malformed
  | none =>
    match timeLength cs with
    | some n => .ok (.scalar, cs.drop n)
    | none =>
      match number cs with
      | some (.ok rest) => .ok (.scalar, rest)
      | some (.error e) => .error e
      | none =>
        match words.find? fun w => w.isPrefixOf cs with
        | some w => .ok (.scalar, cs.drop w.length)
        | none => .error .malformed

/-! ## Values -/

/-- One of the keys is a beginning of the other key. -/
def isWithin (frozen : List Key) (k : Key) : Bool := frozen.any fun f => f.isPrefixOf k

mutual
/-- Reads a value. -/
def value : Nat → Reader Value
  | 0, _ => .error .malformed
  | fuel + 1, cs =>
    match cs with
    | '"' :: '"' :: '"' :: rest => (multiline '"' (basicFrom true 0) rest).map fun r =>
        (.string r.1, r.2)
    | '"' :: rest => (basicFrom false 0 rest).map fun r => (.string (String.ofList r.1), r.2)
    | '\'' :: '\'' :: '\'' :: rest => (multiline '\'' (literalFrom true) rest).map fun r =>
        (.string r.1, r.2)
    | '\'' :: rest => (literalFrom false rest).map fun r => (.string (String.ofList r.1), r.2)
    | 't' :: 'r' :: 'u' :: 'e' :: rest => .ok (.scalar, rest)
    | 'f' :: 'a' :: 'l' :: 's' :: 'e' :: rest => .ok (.scalar, rest)
    | '[' :: rest => do
      let (_, rest) ← skipLines (rest.length + 1) rest
      match rest with
      | ']' :: after => .ok (.array [], after)
      | _ => (items fuel rest).map fun r => (.array r.1, r.2)
    | '\x7b' :: rest =>
      match skipBlanks rest with
      | '\x7d' :: after => .ok (.table [], after)
      | rest => (inlineEntries fuel [] [] rest).map fun r => (.table r.1, r.2)
    | _ => scalar cs

/-- Reads the items of an array and its closing bracket. -/
def items : Nat → Reader (List Value)
  | 0, _ => .error .malformed
  | fuel + 1, cs => do
    let (v, rest) ← value fuel cs
    let (_, rest) ← skipLines (rest.length + 1) rest
    match rest with
    | ']' :: after => .ok ([v], after)
    | ',' :: after =>
      let (_, after) ← skipLines (after.length + 1) after
      match after with
      | ']' :: after => .ok ([v], after)
      | _ => (items fuel after).map fun r => (v :: r.1, r.2)
    | _ => .error .malformed

/-- Reads the entries of an inline table and its closing brace; `frozen` holds the keys of the
tables and arrays read so far. -/
def inlineEntries : Nat → List Key → Entries → Reader Entries
  | 0, _, _, _ => .error .malformed
  | fuel + 1, frozen, es, cs => do
    let (k, v, rest) ← entry fuel cs
    if isWithin frozen k then .error .malformed
    else
      match enter false k v es with
      | none => .error .malformed
      | some es =>
        match skipBlanks rest with
        | '\x7d' :: after => .ok (es, after)
        | ',' :: after =>
          inlineEntries fuel (if v.isNest then k :: frozen else frozen) es (skipBlanks after)
        | _ => .error .malformed

/-- Reads a key and its value. -/
def entry : Nat → List Char → Except Refusal (Key × Value × List Char)
  | 0, _ => .error .malformed
  | fuel + 1, cs => do
    let (k, rest) ← key cs
    match rest with
    | '=' :: after =>
      let (v, rest) ← value fuel (skipBlanks after)
      .ok (k, v, rest)
    | _ => .error .malformed
end

/-! ## Statements -/

/-- A statement of a document. -/
inductive Statement
  | entry (key : Key) (value : Value)
  | table (key : Key)
  | arrayTable (key : Key)
deriving Repr

/-- Reads a statement, without what follows it on its line. -/
def statement : Reader Statement := fun cs =>
  match cs with
  | '[' :: '[' :: rest => do
    let (k, rest) ← key (skipBlanks rest)
    match rest with
    | ']' :: ']' :: after => .ok (.arrayTable k, after)
    | _ => .error .malformed
  | '[' :: rest => do
    let (k, rest) ← key (skipBlanks rest)
    match rest with
    | ']' :: after => .ok (.table k, after)
    | _ => .error .malformed
  | _ => do
    let (k, v, rest) ← entry (2 * cs.length + 2) cs
    .ok (.entry k v, rest)

/-- Reads the end of a line: a comment may stand before it. -/
def lineEnd (cs : List Char) : Except Refusal (List Char) := do
  let (_, rest) ← skipComment (skipBlanks cs)
  match rest with
  | [] => .ok []
  | '\n' :: after => .ok after
  | _ => .error .malformed

/-- Reads statements up to the end, or up to the first that is refused. -/
def statementsFuel : Nat → List Char → List Statement × Option Refusal
  | 0, _ => ([], some .malformed)
  | fuel + 1, cs =>
    match skipBlanks cs with
    | [] => ([], none)
    | '\n' :: rest => statementsFuel fuel rest
    | '#' :: rest =>
      match lineEnd ('#' :: rest) with
      | .ok after => statementsFuel fuel after
      | .error e => ([], some e)
    | rest =>
      match statement rest with
      | .error e => ([], some e)
      | .ok (s, after) =>
        match lineEnd after with
        | .error e => ([s], some e)
        | .ok after =>
          let (ss, e) := statementsFuel fuel after
          (s :: ss, e)

/-- Reads statements up to the end, or up to the first that is refused. -/
def statements (cs : List Char) : List Statement × Option Refusal :=
  statementsFuel (cs.length + 1) cs

end Toml
end NodeSchema
