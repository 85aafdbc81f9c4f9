import NodeSchema.Rust.Tree

/-!
# Reading a group of tokens

A cursor stands before one of the tokens that a pair of delimiters encloses.  Its operations look
at the tokens ahead and step over them; one that fails complains about the place where the cursor
stands.

`Cursor.Operation` lists the operations as data, and `Cursor.apply` carries one out.  A failing
operation leaves the cursor where it was (`Cursor.after`).
-/

set_option autoImplicit false

namespace NodeSchema
namespace Rust

/-- A place among the tokens of a group. -/
structure Cursor where
  source : Source
  tokens : List Tree
  /-- The number of tokens before the cursor. -/
  index : Nat
  /-- Where the closing delimiter begins. -/
  close : Nat

namespace Cursor

/-- The cursor before the first token of a group, whose operators are joined. -/
def ofGroup (source : Source) (g : Tree) : Cursor := ⟨source, g.body, 0, g.stop - 1⟩

/-- The tokens after the cursor. -/
def rest (c : Cursor) : List Tree := c.tokens.drop c.index

/-- The token a number of steps ahead. -/
def peek (c : Cursor) (ahead : Nat) : Option Tree := c.tokens[c.index + ahead]?

/-- The token a number of steps ahead has the given text. -/
def sees (c : Cursor) (text : String) (ahead : Nat) : Bool :=
  match c.peek ahead with
  | some t => t.text = text
  | none => false

/-- No token is left. -/
def atEnd (c : Cursor) : Bool := c.tokens.length ≤ c.index

/-- Where the next token begins, or the closing delimiter. -/
def offset (c : Cursor) : Nat :=
  match c.peek 0 with
  | some t => t.start
  | none => c.close

/-- The cursor some tokens further on. -/
def advance (c : Cursor) (n : Nat) : Cursor := { c with index := c.index + n }

/-- A complaint about where the cursor stands. -/
def fail {α : Type} (c : Cursor) (complaint : Complaint) : Except Failure α :=
  .error (c.source.complain c.offset complaint)

/-- Takes the next token. -/
def next (c : Cursor) : Except Failure (Tree × Cursor) :=
  match c.peek 0 with
  | some t => .ok (t, c.advance 1)
  | none => c.fail .unexpectedEnd

/-- Steps over the next token if it has the given text. -/
def eat (c : Cursor) (text : String) : Bool × Cursor :=
  if c.sees text 0 then (true, c.advance 1) else (false, c)

/-- Takes the next token, which must have the given text. -/
def expect (c : Cursor) (text : String) : Except Failure (Tree × Cursor) :=
  if c.sees text 0 then c.next else c.fail (.expected text)

/-- Takes the next token, which must be an identifier. -/
def expectIdentifier (c : Cursor) : Except Failure (String × Cursor) :=
  match c.peek 0 with
  | some (.leaf t) =>
    if t.isIdentifier then .ok (t.text, c.advance 1) else c.fail .expectedIdentifier
  | _ => c.fail .expectedIdentifier

/-- Takes the next token, which must be a group with the given delimiter. -/
def expectGroup (c : Cursor) (opener : String) : Except Failure (Tree × Cursor) :=
  match c.peek 0 with
  | some t => if t.opener? = some opener then .ok (t, c.advance 1) else c.fail (.expected opener)
  | none => c.fail (.expected opener)

/-- No token may be left. -/
def expectEnd (c : Cursor) : Except Failure Unit :=
  if c.atEnd then .ok () else c.fail .unexpectedToken

/-- The attributes at the front of tokens: how many tokens they take, and where the last one
ends. -/
def attributeRun : List Tree → Nat × Nat
  | t :: g :: rest =>
    if t.text = "#" && g.opener? = some "[" then
      let (n, stop) := attributeRun rest
      (n + 2, if n = 0 then g.stop else stop)
    else (0, 0)
  | _ => (0, 0)

/-- Steps over outer attributes, and tells from where to where they reach. -/
def skipAttributes (c : Cursor) : Option (Nat × Nat) × Cursor :=
  let (n, stop) := attributeRun c.rest
  if n = 0 then (none, c) else (some (c.offset, stop), c.advance n)

/-- Steps over a number sign and the given identifier after it. -/
def eatMarker (c : Cursor) (name : String) : Bool × Cursor :=
  match c.peek 1 with
  | some (.leaf t) =>
    if c.sees "#" 0 && t.isIdentifier && t.text = name then (true, c.advance 2) else (false, c)
  | _ => (false, c)

/-! ## Operations as data -/

/-- The operations of a cursor. -/
inductive Operation
  | peek (ahead : Nat)
  | sees (text : String) (ahead : Nat)
  | atEnd
  | next
  | eat (text : String)
  | expect (text : String)
  | expectIdentifier
  | expectGroup (opener : String)
  | expectEnd
  | skipAttributes
  | eatMarker (name : String)
deriving DecidableEq, Repr

/-- What an operation answers. -/
inductive Answer
  | nothing
  | token (t : Tree)
  | text (s : String)
  | truth (b : Bool)
  | range (start stop : Nat)
deriving Repr

/-- Carries out an operation. -/
def apply (c : Cursor) : Operation → Except Failure (Answer × Cursor)
  | .peek n =>
    match c.peek n with
    | some t => .ok (.token t, c)
    | none => .ok (.nothing, c)
  | .sees text n => .ok (.truth (c.sees text n), c)
  | .atEnd => .ok (.truth c.atEnd, c)
  | .next => c.next.map fun r => (.token r.1, r.2)
  | .eat text => .ok (.truth (c.eat text).1, (c.eat text).2)
  | .expect text => (c.expect text).map fun r => (.token r.1, r.2)
  | .expectIdentifier => c.expectIdentifier.map fun r => (.text r.1, r.2)
  | .expectGroup opener => (c.expectGroup opener).map fun r => (.token r.1, r.2)
  | .expectEnd => c.expectEnd.map fun _ => (.nothing, c)
  | .skipAttributes =>
    match c.skipAttributes with
    | (some (start, stop), c') => .ok (.range start stop, c')
    | (none, c') => .ok (.nothing, c')
  | .eatMarker name => .ok (.truth (c.eatMarker name).1, (c.eatMarker name).2)

/-- The cursor after an operation; one that fails leaves it where it was. -/
def after (c : Cursor) (op : Operation) : Cursor :=
  match c.apply op with
  | .ok (_, c') => c'
  | .error _ => c

/-- The cursor after operations, one after the other. -/
def afterAll (c : Cursor) (ops : List Operation) : Cursor := ops.foldl after c

end Cursor
end Rust
end NodeSchema
