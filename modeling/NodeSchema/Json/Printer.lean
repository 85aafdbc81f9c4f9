import NodeSchema.Json.Value

/-!
# Writing JSON text

Values are written over several lines with two blanks for each level, in ASCII: characters past it
are written as UTF-16 units.  Empty lists and objects stay on one line.
-/

set_option autoImplicit false

namespace NodeSchema
namespace Json

/-! ## Strings -/

/-- A UTF-16 unit as an escape. -/
def unitEscape (n : Nat) : List Char := '\\' :: 'u' :: Text.hexDigits 4 n

/-- One character inside a string. -/
def escapeChar (c : Char) : List Char :=
  if c = '"' then ['\\', '"']
  else if c = '\\' then ['\\', '\\']
  else if c = '\n' then ['\\', 'n']
  else if c = '\r' then ['\\', 'r']
  else if c = '\t' then ['\\', 't']
  else if c.toNat = 8 then ['\\', 'b']
  else if c.toNat = 12 then ['\\', 'f']
  else if 32 ≤ c.toNat && c.toNat < 127 then [c]
  else if c.toNat < 0x10000 then unitEscape c.toNat
  else
    let n := c.toNat - 0x10000
    unitEscape (0xD800 + n / 1024) ++ unitEscape (0xDC00 + n % 1024)

/-- A string with its quotes. -/
def printString (s : String) : List Char := '"' :: s.toList.flatMap escapeChar ++ ['"']

/-- A number. -/
def printFloat : Binary64 → List Char
  | .nan => "NaN".toList
  | .infinity false => "Infinity".toList
  | .infinity true => "-Infinity".toList
  | x => x.text.toList

/-! ## Values -/

/-- The beginning of a line at a level. -/
def newline (level : Nat) : List Char := '\n' :: List.replicate (2 * level) ' '

mutual
/-- A value whose lines begin at a level. -/
def printAt (level : Nat) : Json → List Char
  | .null => "null".toList
  | .bool true => "true".toList
  | .bool false => "false".toList
  | .int n => (toString n).toList
  | .float x => printFloat x
  | .string s => printString s
  | .array [] => "[]".toList
  | .array (v :: vs) =>
    '[' :: newline (level + 1) ++ printAt (level + 1) v ++ printItems (level + 1) vs
      ++ newline level ++ [']']
  | .object [] => ['\x7b', '\x7d']
  | .object ((n, v) :: ms) =>
    '\x7b' :: newline (level + 1) ++ printString n ++ ':' :: ' ' :: printAt (level + 1) v
      ++ printMembers (level + 1) ms ++ newline level ++ ['\x7d']
/-- The items after the first. -/
def printItems (level : Nat) : List Json → List Char
  | [] => []
  | v :: vs => ',' :: newline level ++ printAt level v ++ printItems level vs
/-- The members after the first. -/
def printMembers (level : Nat) : List (String × Json) → List Char
  | [] => []
  | (n, v) :: ms =>
    ',' :: newline level ++ printString n ++ ':' :: ' ' :: printAt level v
      ++ printMembers level ms
end

/-- The text of a value. -/
def print (v : Json) : List Char := printAt 0 v

end Json
end NodeSchema
