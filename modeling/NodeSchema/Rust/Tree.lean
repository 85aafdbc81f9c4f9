import NodeSchema.Rust.Lexeme
import NodeSchema.Rust.Source

/-!
# Token trees

The tokens of a source text are its lexemes without blanks and comments; each token keeps what
stood before it and the bytes it covers.  Matching delimiters group them into trees.

Inside the delimiters of a macro, punctuation is read as the longest operators that adjacent
characters make up; `Tree.joined` does that.  `Tree.render` writes tokens back with nothing
between them, and `textOf` writes them as they stood.
-/

set_option autoImplicit false

namespace NodeSchema
namespace Rust

open Text (Glyph)

/-! ## Tokens -/

/-- A token, what stood before it, and the bytes it covers. -/
structure Token where
  kind : LexemeKind
  text : String
  gap : List Lexeme
  start : Nat
  stop : Nat
deriving DecidableEq, Repr

/-- The number of bytes of the first `n` glyphs. -/
def widthOf (n : Nat) (gs : List Glyph) : Nat := Text.bytesIn (gs.take n)

/-- Gives every lexeme that is a token its bytes; `gap` holds the lexemes since the last token, in
reverse. -/
def placeFrom (offset : Nat) (gap : List Lexeme) (gs : List Glyph) : List Lexeme → List Token
  | [] => []
  | l :: ls =>
    let n := l.text.length
    let stop := offset + widthOf n gs
    let later := gs.drop n
    if l.kind = .blank || l.kind = .comment then placeFrom stop (l :: gap) later ls
    else ⟨l.kind, String.ofList l.text, gap.reverse, offset, stop⟩ :: placeFrom stop [] later ls

/-- The tokens of a text; nothing if some character begins no lexeme. -/
def tokens? (bytes : List UInt8) : Option (List Token) :=
  let gs := Text.decode bytes
  (Lexeme.scan (gs.map Glyph.char)).map (placeFrom 0 [] gs)

/-- The words that are no identifiers inside the delimiters of a macro. -/
def reservedWords : List String :=
  ["as", "async", "await", "break", "const", "continue", "crate", "default", "enum", "fn", "for",
    "gen", "if", "impl", "let", "loop", "match", "mod", "mut", "pub", "return", "self", "static",
    "struct", "super", "trait", "true", "false", "type", "union", "unsafe", "use", "where",
    "while", "_"]

/-- The names of the primitive types. -/
def primitiveTypes : List String :=
  ["u8", "i8", "u16", "i16", "u32", "i32", "u64", "i64", "u128", "i128", "isize", "usize", "f32",
    "f64", "bool", "str", "char"]

namespace Token

/-- The token is an identifier inside the delimiters of a macro. -/
def isIdentifier (t : Token) : Bool :=
  t.kind = .word && !reservedWords.contains t.text && !primitiveTypes.contains t.text

/-- The token follows the one before it directly. -/
def isAdjacent (t : Token) : Bool := t.gap.isEmpty

/-- The token is the given punctuation character. -/
def isMark (t : Token) (text : String) : Bool := t.kind = .mark && t.text = text

/-- The token is the given word. -/
def isWord (t : Token) (text : String) : Bool := t.kind = .word && t.text = text

/-- The characters before the token. -/
def gapChars (t : Token) : List Char := Lexeme.flatten t.gap

/-- A token apart from its place. -/
def unplaced (t : Token) : Token := { t with start := 0, stop := 0 }

end Token

/-! ## Trees -/

/-- A token, or delimiters with what they enclose. -/
inductive Tree
  | leaf (token : Token)
  | group (opener : Token) (body : List Tree) (closer : Token)
deriving Repr

namespace Tree

mutual
/-- Decides whether two trees are the same. -/
def decEq : (a b : Tree) → Decidable (a = b)
  | .leaf t, .leaf u =>
    match (inferInstance : Decidable (t = u)) with
    | isTrue h => isTrue (by rw [h])
    | isFalse h => isFalse fun e => h (by cases e; rfl)
  | .group o as c, .group p bs d =>
    match (inferInstance : Decidable (o = p)), decEqList as bs,
      (inferInstance : Decidable (c = d)) with
    | isTrue h, isTrue g, isTrue k => isTrue (by rw [h, g, k])
    | isFalse h, _, _ => isFalse fun e => h (by cases e; rfl)
    | _, isFalse g, _ => isFalse fun e => g (by cases e; rfl)
    | _, _, isFalse k => isFalse fun e => k (by cases e; rfl)
  | .leaf _, .group _ _ _ | .group _ _ _, .leaf _ => isFalse nofun
/-- Decides whether two lists of trees are the same. -/
def decEqList : (as bs : List Tree) → Decidable (as = bs)
  | [], [] => isTrue rfl
  | a :: as, b :: bs =>
    match decEq a b, decEqList as bs with
    | isTrue h, isTrue g => isTrue (by rw [h, g])
    | isFalse h, _ => isFalse fun e => h (by cases e; rfl)
    | _, isFalse g => isFalse fun e => g (by cases e; rfl)
  | [], _ :: _ | _ :: _, [] => isFalse nofun
end

instance : DecidableEq Tree := decEq

end Tree

/-- The delimiter that a closing one matches. -/
def openerOf (closer : String) : Option String :=
  if closer = ")" then some "(" else if closer = "]" then some "["
  else if closer = "\x7d" then some "\x7b" else none

/-- The text is an opening delimiter. -/
def isOpener (text : String) : Bool := text = "(" || text = "[" || text = "\x7b"

/-- A group that is still open: its delimiter, and the trees before it in reverse. -/
structure OpenGroup where
  opener : Token
  before : List Tree

/-- Groups tokens by their delimiters; `done` holds the trees of the innermost open group in
reverse. -/
def groupFrom : List OpenGroup → List Tree → List Token → Option (List Tree)
  | [], done, [] => some done.reverse
  | _ :: _, _, [] => none
  | stack, done, t :: ts =>
    if t.kind = .mark && isOpener t.text then groupFrom (⟨t, done⟩ :: stack) [] ts
    else
      match (if t.kind = .mark then openerOf t.text else none) with
      | none => groupFrom stack (.leaf t :: done) ts
      | some o =>
        match stack with
        | g :: stack =>
          if g.opener.text = o then
            groupFrom stack (.group g.opener done.reverse t :: g.before) ts
          else none
        | [] => none

/-- The trees of a text; nothing if it has no tokens or its delimiters do not match. -/
def trees? (bytes : List UInt8) : Option (List Tree) := tokens? bytes >>= groupFrom [] []

namespace Tree

/-- The first token of a tree. -/
def first : Tree → Token
  | .leaf t => t
  | .group o _ _ => o

/-- Where a tree begins. -/
def start (t : Tree) : Nat := t.first.start

/-- Where a tree ends. -/
def stop : Tree → Nat
  | .leaf t => t.stop
  | .group _ _ c => c.stop

/-- The delimiter that opens the tree. -/
def opener? : Tree → Option String
  | .leaf _ => none
  | .group o _ _ => some o.text

/-- What the delimiters enclose. -/
def body : Tree → List Tree
  | .leaf _ => []
  | .group _ b _ => b

/-! ### Text -/

mutual
/-- The characters of a tree without what stands before it. -/
def bare : Tree → List Char
  | .leaf t => t.text.toList
  | .group o body c => o.text.toList ++ written body ++ (c.gapChars ++ c.text.toList)
/-- The characters of trees with what stands before each. -/
def written : List Tree → List Char
  | [] => []
  | t :: ts => t.first.gapChars ++ bare t ++ written ts
end

/-- The text of a tree as it stands in the source. -/
def text (t : Tree) : String := String.ofList t.bare

/-! ### Places -/

mutual
/-- A tree apart from places. -/
def unplaced : Tree → Tree
  | .leaf t => .leaf t.unplaced
  | .group o body c => .group o.unplaced (unplacedAll body) c.unplaced
/-- Trees apart from places. -/
def unplacedAll : List Tree → List Tree
  | [] => []
  | t :: ts => unplaced t :: unplacedAll ts
end

/-! ### Size -/

mutual
/-- The number of tokens of a tree. -/
def size : Tree → Nat
  | .leaf _ => 1
  | .group _ body _ => sizeList body + 2
/-- The number of tokens of trees. -/
def sizeList : List Tree → Nat
  | [] => 0
  | t :: ts => size t + sizeList ts
end

/-! ### Rendering -/

/-- What stands between the quotes of a string; the whole text if it has none. -/
def unquoted (cs : List Char) : List Char :=
  match cs.dropWhile (· ≠ '"') with
  | [] => cs
  | _ :: rest => ((rest.reverse.dropWhile (· ≠ '"')).drop 1).reverse

/-- A token written by itself: of a raw string only what it contains. -/
def renderToken (t : Token) : List Char :=
  if t.kind = .rawString then unquoted t.text.toList else t.text.toList

mutual
/-- Writes a tree with nothing between its tokens. -/
def rendered : Tree → List Char
  | .leaf t => renderToken t
  | .group o body c => o.text.toList ++ renderedAll body ++ c.text.toList
/-- Writes trees with nothing between their tokens. -/
def renderedAll : List Tree → List Char
  | [] => []
  | t :: ts => rendered t ++ renderedAll ts
end

/-- A tree with nothing between its tokens. -/
def render (t : Tree) : String := String.ofList t.rendered

/-- What a group encloses with nothing between its tokens. -/
def renderBody (t : Tree) : String := String.ofList (renderedAll t.body)

/-! ### Operators -/

/-- The operators of more than one character. -/
def operators : List (List Char) :=
  ["<<=", ">>=", "...", "..=", "::", "->", "=>", "==", "!=", "<=", ">=", "&&", "||", "+=", "-=",
    "*=", "/=", "%=", "^=", "&=", "|=", "<<", ">>", ".."].map String.toList

/-- The punctuation characters at the front that follow each other directly. -/
def adjacentMarks : List Tree → List Char
  | .leaf t :: rest =>
    if t.kind = .mark && t.isAdjacent then t.text.toList ++ adjacentMarks rest else []
  | _ => []

/-- How many of the trees after a tree belong to its operator: as many as the longest operator
takes. -/
def operatorTail (t : Tree) (rest : List Tree) : Nat :=
  match t with
  | .leaf m =>
    if m.kind = .mark then
      let marks := m.text.toList ++ adjacentMarks rest
      ((operators.filter fun o => o.isPrefixOf marks).map List.length).foldl max 1 - 1
    else 0
  | .group _ _ _ => 0

/-- A token with the tokens that follow it directly. -/
def mergeTokens (t : Token) : List Tree → Token
  | [] => t
  | u :: us => mergeTokens { t with text := t.text ++ u.first.text, stop := u.stop } us

mutual
/-- Reads the punctuation of a tree as operators. -/
def joined : Tree → Tree
  | .leaf t => .leaf t
  | .group o body c => .group o (joinedAfter 0 body) c
/-- Reads the punctuation of trees as operators, first passing over the `skip` trees that belong
to the operator before. -/
def joinedAfter : Nat → List Tree → List Tree
  | _, [] => []
  | skip + 1, _ :: rest => joinedAfter skip rest
  | 0, t :: rest =>
    let n := operatorTail t rest
    (match t with
      | .leaf m => .leaf (mergeTokens m (rest.take n))
      | .group _ _ _ => joined t) :: joinedAfter n rest
end

end Tree

/-- The text of trees as they stand in the source, without what stands before the first. -/
def textOf : List Tree → String
  | [] => ""
  | t :: ts => String.ofList (t.bare ++ Tree.written ts)

/-- The trees of a list that a shorter rest of it leaves out. -/
def consumed (ts rest : List Tree) : List Tree := ts.take (ts.length - rest.length)

end Rust
end NodeSchema
