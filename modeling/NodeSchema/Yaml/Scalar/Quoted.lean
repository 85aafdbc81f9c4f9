import NodeSchema.Yaml.Input

/-!
# Quoted scalars

Between single quotes a quote is written twice; between double quotes a backslash starts an
escape.  A line end, with the blanks around it, stands for a space; of several line ends the first
stands for nothing and the others for themselves.
-/

set_option autoImplicit false

namespace NodeSchema
namespace Yaml
namespace Quoted

/-! ## Escapes -/

/-- The characters that single letters after a backslash stand for. -/
def letterEscapes : List (Char × Nat) :=
  [('0', 0), ('a', 7), ('b', 8), ('t', 9), ('\t', 9), ('n', 10), ('v', 11), ('f', 12), ('r', 13),
   ('e', 27), (' ', 32), ('"', 34), ('\\', 92), ('/', 47), ('N', 0x85), ('_', 0xA0),
   ('L', 0x2028), ('P', 0x2029)]

/-- The number of hexadecimal digits that follow a letter. -/
def escapeDigits? (c : Char) : Option Nat :=
  if c = 'x' then some 2 else if c = 'u' then some 4 else if c = 'U' then some 8 else none

/-- The character of a number; half a surrogate pair becomes the replacement character. -/
def charOf (n : Nat) : Except Refusal Char :=
  if 0x10FFFF < n then .error (.fault .badValue)
  else if 0xD800 ≤ n && n < 0xE000 then .ok (Char.ofNat 0xFFFD)
  else .ok (Char.ofNat n)

/-! ## Line ends -/

/-- Takes the line ends and blanks up to the next text. -/
def breaks : Nat → Input → Except Refusal (List Char × Input)
  | 0, _ => .error .malformed
  | fuel + 1, i =>
    if i.isMarker then .error .malformed
    else
      let j := i.skipWhile fun c => c = ' ' || c = '\t'
      match j.lineBreak? with
      | none => .ok ([], j)
      | some (c, k) => do
        let (cs, l) ← breaks fuel k
        .ok (c :: cs, l)

/-- What line ends stand for. -/
def folded (first : Char) (others : List Char) : List Char :=
  if first ≠ '\n' then first :: others
  else if others.isEmpty then [' ']
  else others

/-! ## Bodies -/

/-- Reads the escape after a backslash. -/
def escape (fuel : Nat) (i : Input) : Except Refusal (List Char × Input) :=
  match i.next? with
  | none => .error .malformed
  | some c =>
    match letterEscapes.lookup c, escapeDigits? c with
    | some n, _ => .ok ([Char.ofNat n], i.advance)
    | none, some width =>
      let ds := i.advance.rest.take width
      match hexNumber? ds with
      | some n =>
        if ds.length < width then .error .malformed
        else (charOf n).map fun u => ([u], i.advance.advanceBy width)
      | none => .error .malformed
    | none, none => if isBreak c then breaks fuel i.advance else .error .malformed

/-- Reads a quoted scalar up to its closing quote. -/
def body (quote : Char) : Nat → Input → Except Refusal (List Char × Input)
  | 0, _ => .error .malformed
  | fuel + 1, i =>
    match i.rest with
    | [] => .error .malformed
    | c :: rest =>
      let more (taken : List Char) (j : Input) : Except Refusal (List Char × Input) := do
        let (cs, k) ← body quote fuel j
        .ok (taken ++ cs, k)
      if c = quote then
        if quote = '\'' && rest.head? = some '\'' then more ['\''] (i.advanceBy 2)
        else .ok ([], i.advance)
      else if c = '\\' && quote = '"' then do
        let (cs, j) ← escape fuel i.advance
        more cs j
      else if c = ' ' || c = '\t' || isBreak c then
        let (blanks, j) := i.takeWhile fun c => c = ' ' || c = '\t'
        match j.lineBreak? with
        | some (first, k) => do
          let (others, l) ← breaks fuel k
          more (folded first others) l
        | none => more blanks j
      else more [c] i.advance

/-- Reads a quoted scalar from its opening quote on. -/
def read (i : Input) : Except Refusal (String × Input) :=
  match i.next? with
  | none => .error .malformed
  | some quote =>
    (body quote (i.rest.length + 1) i.advance).map fun r => (String.ofList r.1, r.2)

end Quoted
end Yaml
end NodeSchema
