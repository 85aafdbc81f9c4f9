import NodeSchema.Text.IdentChar

/-!
# The lexemes of Rust source text

A source text is cut into lexemes without loss: blanks and comments are lexemes too, and the
lexemes of a text concatenate to it (`flatten_scan`).  Punctuation comes as single characters;
whether two of them make up one operator is decided by the reader of the lexemes, who sees whether
anything stands between them.

`measure` decides the class and the length of the lexeme that begins at a character, and `scan`
applies it from the front to the end.
-/

set_option autoImplicit false

namespace NodeSchema
namespace Rust

open Text

/-- The classes of lexemes. -/
inductive LexemeKind
  | blank
  | comment
  /-- An identifier or keyword, also in its raw form. -/
  | word
  /-- A string between plain quotes, with or without a letter in front. -/
  | string
  /-- A raw string. -/
  | rawString
  | char
  | number
  /-- A single punctuation character or delimiter. -/
  | mark
  /-- The interpreter line that a file may begin with. -/
  | interpreter
deriving DecidableEq, Repr

/-- A piece of source text. -/
structure Lexeme where
  kind : LexemeKind
  text : List Char
deriving DecidableEq, Repr

namespace Lexeme

/-! ## Blanks and comments -/

/-- The characters that separate tokens. -/
def isSpace (c : Char) : Bool := c = ' ' || (9 ≤ c.toNat && c.toNat ≤ 13)

/-- How long a block comment goes on, `depth` further comments being open inside it; nothing if
it does not end. -/
def blockTail : Nat → List Char → Option Nat
  | 0, '*' :: '/' :: _ => some 2
  | depth + 1, '*' :: '/' :: rest => (blockTail depth rest).map (· + 2)
  | depth, '/' :: '*' :: rest => (blockTail (depth + 1) rest).map (· + 2)
  | depth, _ :: rest => (blockTail depth rest).map (· + 1)
  | _, [] => none

/-! ## Strings and characters -/

def isHexDigit (c : Char) : Bool :=
  c.isDigit || ('a' ≤ c && c ≤ 'f') || ('A' ≤ c && c ≤ 'F')

/-- The length of what follows the backslash of an escape: any character but `x` and `u`, `x` with
two hexadecimal digits, `u` with four, or `u` with any number of them between braces. -/
def escapeLength : List Char → Option Nat
  | 'x' :: a :: b :: _ => if isHexDigit a && isHexDigit b then some 3 else none
  | 'u' :: '\x7b' :: rest =>
    let digits := rest.takeWhile isHexDigit
    if digits.isEmpty then none
    else if (rest.drop digits.length).head? = some '\x7d' then some (digits.length + 3) else none
  | 'u' :: a :: b :: c :: d :: _ =>
    if isHexDigit a && isHexDigit b && isHexDigit c && isHexDigit d then some 5 else none
  | c :: _ => if c = 'x' || c = 'u' then none else some 1
  | [] => none

/-- How long a string goes on, its closing quote included, after `skip` characters that belong to
an escape. -/
def stringTail : Nat → List Char → Option Nat
  | _, [] => none
  | skip + 1, _ :: rest => (stringTail skip rest).map (· + 1)
  | 0, c :: rest =>
    if c = '"' then some 1
    else if c = '\\' then
      match escapeLength rest with
      | some n => (stringTail n rest).map (· + 1)
      | none => none
    else (stringTail 0 rest).map (· + 1)

/-- The text begins with this many number signs. -/
def hashes : Nat → List Char → Bool
  | 0, _ => true
  | n + 1, c :: rest => c = '#' && hashes n rest
  | _ + 1, [] => false

/-- How long a raw string that was opened with `n` number signs goes on. -/
def rawTail (n : Nat) : List Char → Option Nat
  | [] => none
  | c :: rest =>
    if c = '"' && hashes n rest then some (n + 1) else (rawTail n rest).map (· + 1)

/-- The length of a raw string from its number signs on. -/
def rawLength (cs : List Char) : Option Nat :=
  let n := (cs.takeWhile (· = '#')).length
  match cs.drop n with
  | '"' :: rest => (rawTail n rest).map (· + (n + 1))
  | _ => none

/-- A raw string begins after the letters in front of these characters. -/
def opensRaw (cs : List Char) : Bool := (cs.dropWhile (· = '#')).head? = some '"'

/-- The length of a character literal after its first quote: no character or one, plain or
escaped, and the closing quote. -/
def charTail : List Char → Option Nat
  | '\'' :: _ => some 1
  | '\\' :: rest =>
    match escapeLength rest with
    | some n => if (rest.drop n).head? = some '\'' then some (n + 2) else none
    | none => none
  | _ :: '\'' :: _ => some 2
  | _ => none

/-! ## Numbers -/

/-- A decimal digit or the underscore between digits. -/
def isNumberChar (c : Char) : Bool := c.isDigit || c = '_'

/-- The suffixes that name a numeric type. -/
def numericTypes : List String :=
  ["u8", "i8", "u16", "i16", "u32", "i32", "u64", "i64", "u128", "i128", "isize", "usize",
    "f32", "f64"]

/-- The length of the longest numeric suffix at the front. -/
def suffixLength (cs : List Char) : Nat :=
  ((numericTypes.filter fun t => t.toList.isPrefixOf cs).map String.length).foldl max 0

/-- The length of the digits of a whole number, with the mark of its base. -/
def digitsLength : List Char → Nat
  | '0' :: 'x' :: rest =>
    let n := (rest.takeWhile fun c => isHexDigit c || c = '_').length
    if n = 0 then 1 else n + 2
  | '0' :: 'b' :: rest =>
    let n := (rest.takeWhile fun c => c = '0' || c = '1' || c = '_').length
    if n = 0 then 1 else n + 2
  | '0' :: 'o' :: rest =>
    let n := (rest.takeWhile fun c => ('0' ≤ c && c ≤ '7') || c = '_').length
    if n = 0 then 1 else n + 2
  | cs => (cs.takeWhile isNumberChar).length

/-- The length of a whole number with its suffix. -/
def wholeLength (cs : List Char) : Nat :=
  let n := digitsLength cs
  n + suffixLength (cs.drop n)

/-- The length of the point and the digits of a fraction; nothing if the point does not begin
one, because a name or another point follows it. -/
def fractionLength : List Char → Option Nat
  | '.' :: rest =>
    match rest with
    | c :: _ =>
      if c = '.' || (isIdentStart c && c ≠ '_') then none
      else some (1 + (rest.takeWhile isNumberChar).length)
    | [] => some 1
  | _ => some 0

/-- An exponent begins here; its length is zero if it has no digits. -/
def exponentLength : List Char → Option Nat
  | c :: rest =>
    if c = 'e' || c = 'E' then
      let signed := match rest with
        | s :: _ => s = '+' || s = '-'
        | [] => false
      let after := if signed then rest.drop 1 else rest
      let n := (after.takeWhile isNumberChar).length
      if n = 0 then some 0 else some (1 + (if signed then 1 else 0) + n)
    else none
  | [] => none

/-- The length of the letter and digits that may follow a number with a fraction. -/
def floatSuffixLength : List Char → Nat
  | c :: rest =>
    if c = 'u' || c = 'i' || c = 'f' then
      let n := (rest.takeWhile Char.isDigit).length
      if n = 0 then 0 else n + 1
    else 0
  | [] => 0

/-- The length of a number with a fraction or an exponent; nothing if it has neither. -/
def floatLength (cs : List Char) : Option Nat :=
  let whole := (cs.takeWhile isNumberChar).length
  match fractionLength (cs.drop whole) with
  | none => none
  | some fraction =>
    let n := whole + fraction
    match exponentLength (cs.drop n) with
    | some 0 => some n
    | some e => some (n + e + floatSuffixLength (cs.drop (n + e)))
    | none => if fraction = 0 then none else some (n + floatSuffixLength (cs.drop n))

/-- The length of a number. -/
def numberLength (cs : List Char) : Nat := max 1 ((floatLength cs).getD (wholeLength cs))

/-! ## Words and marks -/

/-- The length of the word that begins with the first character. -/
def wordLength (rest : List Char) : Nat := 1 + (rest.takeWhile isIdentContinue).length

/-- What begins with a letter: a prefixed string or character, a raw word, or a plain word. -/
def measureWord (c : Char) (rest : List Char) : Option (LexemeKind × Nat) :=
  match c, rest with
  | 'r', '#' :: s :: more =>
    if opensRaw rest then (rawLength rest).map fun n => (.rawString, n + 1)
    else if isIdentStart s then some (.word, 2 + wordLength more)
    else some (.word, 1)
  | 'r', '"' :: _ => (rawLength rest).map fun n => (.rawString, n + 1)
  | 'b', '"' :: more | 'c', '"' :: more => (stringTail 0 more).map fun n => (.string, n + 2)
  | 'b', '\'' :: more =>
    match charTail more with
    | some n => some (.char, n + 2)
    | none => some (.word, 1)
  | 'b', 'r' :: more | 'c', 'r' :: more =>
    if opensRaw more then (rawLength more).map fun n => (.rawString, n + 2)
    else some (.word, wordLength rest)
  | _, _ => some (.word, wordLength rest)

/-- The characters that are tokens by themselves, delimiters included. -/
def isMark (c : Char) : Bool :=
  ['+', '-', '*', '/', '%', '^', '!', '&', '|', '=', '<', '>', '@', '.', ',', ';', ':', '#', '$',
    '?', '\'', '(', ')', '[', ']', '\x7b', '\x7d'].contains c

/-- The class and the length of the lexeme that begins with `c`; nothing if none does. -/
def measure (c : Char) (rest : List Char) : Option (LexemeKind × Nat) :=
  if isSpace c then some (.blank, 1 + (rest.takeWhile isSpace).length)
  else if c = '/' && rest.head? = some '/' then
    some (.comment, 1 + (rest.takeWhile (· ≠ '\n')).length)
  else if c = '/' && rest.head? = some '*' then
    (blockTail 0 (rest.drop 1)).map fun n => (.comment, n + 2)
  else if c = '"' then (stringTail 0 rest).map fun n => (.string, n + 1)
  else if c = '\'' then
    match charTail rest with
    | some n => some (.char, n + 1)
    | none => some (.mark, 1)
  else if c.isDigit then some (.number, numberLength (c :: rest))
  else if isIdentStart c then measureWord c rest
  else if isMark c then some (.mark, 1)
  else none

/-! ## Whole texts -/

/-- Cuts a text into lexemes, first passing over the `skip` characters of the lexeme before. -/
def scanAfter : Nat → List Char → Option (List Lexeme)
  | _, [] => some []
  | skip + 1, _ :: rest => scanAfter skip rest
  | 0, c :: rest =>
    match measure c rest with
    | none => none
    | some (kind, n) =>
      (scanAfter (n - 1) rest).map (⟨kind, c :: rest.take (n - 1)⟩ :: ·)

/-- The length of the byte order mark that a file may begin with. -/
def markLength : List Char → Nat
  | c :: _ => if c.toNat = 0xFEFF then 1 else 0
  | [] => 0

/-- The length of the interpreter line that a file may begin with, its line feed included. -/
def interpreterLength : List Char → Nat
  | '#' :: '!' :: rest =>
    let blanks := (rest.takeWhile fun c => isSpace c && c ≠ '\n').length
    let line := (rest.takeWhile (· ≠ '\n')).length
    if (rest.drop blanks).head? = some '[' || (rest.drop line).isEmpty then 0 else line + 3
  | _ => 0

/-- Puts the first `n` characters in front as one lexeme. -/
def opening (kind : LexemeKind) (n : Nat) (cs : List Char) (ls : List Lexeme) : List Lexeme :=
  if n = 0 then ls else ⟨kind, cs.take n⟩ :: ls

/-- Cuts a text into lexemes; nothing if some character begins none. -/
def scan (cs : List Char) : Option (List Lexeme) :=
  let m := markLength cs
  let after := cs.drop m
  let n := interpreterLength after
  (scanAfter n after).map fun ls => opening .blank m cs (opening .interpreter n after ls)

/-! ## Nothing is lost -/

/-- The text of lexemes. -/
def flatten (ls : List Lexeme) : List Char := ls.flatMap Lexeme.text

theorem flatten_scanAfter (cs : List Char) : ∀ skip ls, scanAfter skip cs = some ls →
    flatten ls = cs.drop skip := by
  induction cs with
  | nil => intro skip ls h; simp [scanAfter] at h; subst h; simp [flatten]
  | cons c rest ih =>
    intro skip ls h
    cases skip with
    | succ skip => simpa using ih skip ls (by simpa [scanAfter] using h)
    | zero =>
      simp only [scanAfter] at h
      split at h
      · simp at h
      · next kind n _ =>
        obtain ⟨tail, ht, rfl⟩ := Option.map_eq_some_iff.1 h
        have := ih _ _ ht
        simp [flatten] at this ⊢
        rw [this, List.take_append_drop]

theorem flatten_opening {kind : LexemeKind} {n : Nat} {cs : List Char} {ls : List Lexeme}
    (h : flatten ls = cs.drop n) : flatten (opening kind n cs ls) = cs := by
  unfold opening
  split
  · next h0 => simpa [h0] using h
  · simp only [flatten, List.flatMap_cons] at h ⊢
    rw [h, List.take_append_drop]

/-- The lexemes of a text concatenate to it. -/
theorem flatten_scan {cs : List Char} {ls : List Lexeme} (h : scan cs = some ls) :
    flatten ls = cs := by
  obtain ⟨tail, ht, rfl⟩ := Option.map_eq_some_iff.1 h
  exact flatten_opening (flatten_opening (flatten_scanAfter _ _ _ ht))

end Lexeme
end Rust
end NodeSchema
