import NodeSchema.Json.Value

/-!
# Reading JSON text

Reads a text that is one JSON value with blanks around it.  Beyond the standard, `NaN`, `Infinity`
and `-Infinity` are numbers; of members with one name the last holds, in the place of the first.
Two escapes that are the halves of a surrogate pair are one character.  Half a pair alone is no
character; it is read as a mark that no other part of the text is read as (`Json.ofUnit`), so that
strings are equal iff their units are.

A text that is no value is refused with the cause and the number of characters before the place.
-/

set_option autoImplicit false

namespace NodeSchema
namespace Json

/-! ## What can be wrong -/

/-- Why a text is no JSON value. -/
inductive Flaw
  | value
  | propertyName
  | colon
  | comma
  | extra
  | unterminatedString
  | controlCharacter
  | escape
  | unitEscape
  | byteOrderMark
deriving DecidableEq, Repr

/-- The wording of a flaw. -/
def Flaw.text : Flaw → String
  | .value => "Expecting value"
  | .propertyName => "Expecting property name enclosed in double quotes"
  | .colon => "Expecting ':' delimiter"
  | .comma => "Expecting ',' delimiter"
  | .extra => "Extra data"
  | .unterminatedString => "Unterminated string starting at"
  | .controlCharacter => "Invalid control character at"
  | .escape => "Invalid \\escape"
  | .unitEscape => "Invalid \\uXXXX escape"
  | .byteOrderMark => "Unexpected UTF-8 BOM (decode using utf-8-sig)"

/-- Why a text could not be read. -/
inductive ReadError
  /-- A flaw at a place, given as the number of characters before it. -/
  | flaw (flaw : Flaw) (offset : Nat)
  /-- A whole number with more digits than are read. -/
  | numberTooLong
deriving DecidableEq, Repr

/-- Reading takes a value from the front of the text at an offset, and gives the text and offset
after it. -/
abbrev Reader (α : Type) := List Char → Nat → Except ReadError (α × List Char × Nat)

/-! ## Blanks -/

/-- The blanks of JSON. -/
def isJsonBlank (c : Char) : Bool := c = ' ' || c = '\t' || c = '\n' || c = '\r'

/-- Passes over blanks. -/
def skipBlanks : List Char → Nat → List Char × Nat
  | c :: rest, n => if isJsonBlank c then skipBlanks rest (n + 1) else (c :: rest, n)
  | [], n => ([], n)

/-! ## Strings -/

/-- The value of a hexadecimal digit. -/
def hexValue? (c : Char) : Option Nat :=
  if c.isDigit then some (c.toNat - 48)
  else if 'a' ≤ c && c ≤ 'f' then some (c.toNat - 87)
  else if 'A' ≤ c && c ≤ 'F' then some (c.toNat - 55)
  else none

/-- The value of four hexadecimal digits. -/
def unitValue? (a b c d : Char) : Option Nat := do
  let a ← hexValue? a
  let b ← hexValue? b
  let c ← hexValue? c
  let d ← hexValue? d
  some (((a * 16 + b) * 16 + c) * 16 + d)

/-- The character that a letter after a backslash stands for. -/
def simpleEscape? (c : Char) : Option Char :=
  if c = '"' || c = '\\' || c = '/' then some c
  else if c = 'b' then some (Char.ofNat 8)
  else if c = 'f' then some (Char.ofNat 12)
  else if c = 'n' then some '\n'
  else if c = 'r' then some '\r'
  else if c = 't' then some '\t'
  else none

/-- The unit is the first half of a surrogate pair. -/
def isHighHalf (n : Nat) : Bool := 0xD800 ≤ n && n < 0xDC00

/-- The unit is the second half of a surrogate pair. -/
def isLowHalf (n : Nat) : Bool := 0xDC00 ≤ n && n < 0xE000

/-- What a unit by itself is read as, in a text of the given length.  Half a pair is marked by more
replacement characters than the text has room for, and a private character that tells the half and
ends the mark. -/
def ofUnit (length n : Nat) : List Char :=
  if isHighHalf n || isLowHalf n then
    List.replicate (length + 1) (Char.ofNat 0xFFFD) ++ [Char.ofNat (0xE000 + (n - 0xD800))]
  else [Char.ofNat n]

/-- Reads the units after `\u`, of which the `u` is at an offset: what they are read as, and how
many characters they take after the `u`. -/
def readUnits (length offset : Nat) (cs : List Char) : Except ReadError (List Char × Nat) :=
  match cs with
  | a :: b :: c :: d :: e :: rest =>
    match unitValue? a b c d with
    | none => .error (.flaw .unitEscape offset)
    | some n =>
      if isHighHalf n && e = '\\' then
        match rest with
        | 'u' :: a' :: b' :: c' :: d' :: _ :: _ =>
          match unitValue? a' b' c' d' with
          | none => .error (.flaw .unitEscape (offset + 6))
          | some m =>
            if isLowHalf m then
              .ok ([Char.ofNat (0x10000 + (n - 0xD800) * 1024 + (m - 0xDC00))], 10)
            else .ok (ofUnit length n, 4)
        | _ => .ok (ofUnit length n, 4)
      else .ok (ofUnit length n, 4)
  | _ => .error (.flaw .unitEscape offset)

/-- Reads the rest of a string that began at `start` in a text of the given length, first passing
over the `skip` characters of an escape. -/
def readStringFrom (length start : Nat) : Nat → List Char → Nat →
    Except ReadError (List Char × List Char × Nat)
  | _, [], _ => .error (.flaw .unterminatedString start)
  | skip + 1, _ :: rest, n => readStringFrom length start skip rest (n + 1)
  | 0, c :: rest, n =>
    if c = '"' then .ok ([], rest, n + 1)
    else if c = '\\' then
      match rest with
      | [] => .error (.flaw .unterminatedString start)
      | e :: more =>
        if e = 'u' then
          match readUnits length (n + 1) more with
          | .error err => .error err
          | .ok (us, width) =>
            (readStringFrom length start (width + 1) rest (n + 1)).map fun r => (us ++ r.1, r.2)
        else
          match simpleEscape? e with
          | none => .error (.flaw .escape n)
          | some u => (readStringFrom length start 1 rest (n + 1)).map fun r => (u :: r.1, r.2)
    else if c.toNat < 32 then .error (.flaw .controlCharacter n)
    else (readStringFrom length start 0 rest (n + 1)).map fun r => (c :: r.1, r.2)

/-- Reads a string after its opening quote. -/
def readString (length : Nat) : Reader String := fun cs n =>
  (readStringFrom length (n - 1) 0 cs n).map fun r => (String.ofList r.1, r.2)

/-! ## Numbers -/

/-- The most digits that a whole number may have. -/
def maxDigits : Nat := 4300

/-- The value of decimal digits. -/
def digitsValue (ds : List Char) : Nat := ds.foldl (fun n c => n * 10 + (c.toNat - 48)) 0

/-- The digits of the whole part of a number: a zero alone, or digits that begin with another. -/
def wholeDigits : List Char → List Char
  | '0' :: _ => ['0']
  | cs => cs.takeWhile Char.isDigit

/-- The digits of a fraction, after its point; there is none without a digit. -/
def fractionDigits : List Char → List Char
  | '.' :: rest => rest.takeWhile Char.isDigit
  | _ => []

/-- The sign and the digits of an exponent, and its length; there is none without a digit. -/
def exponentPart : List Char → Option (Bool × List Char × Nat)
  | c :: rest =>
    if c = 'e' || c = 'E' then
      let (negative, signed, after) := match rest with
        | '-' :: r => (true, 1, r)
        | '+' :: r => (false, 1, r)
        | _ => (false, 0, rest)
      let ds := after.takeWhile Char.isDigit
      if ds.isEmpty then none else some (negative, ds, 1 + signed + ds.length)
    else none
  | [] => none

/-- Reads a number after its sign; the offset is where the number begins. -/
def readUnsigned (negative : Bool) : Reader Json := fun body n =>
  let whole := wholeDigits body
  if whole.isEmpty then .error (.flaw .value n)
  else
    let afterWhole := body.drop whole.length
    let fraction := fractionDigits afterWhole
    let fractionLength := if fraction.isEmpty then 0 else fraction.length + 1
    let afterFraction := afterWhole.drop fractionLength
    let exponent := exponentPart afterFraction
    let width := (if negative then 1 else 0) + whole.length + fractionLength
    match fraction, exponent with
    | [], none =>
      if maxDigits < whole.length then .error .numberTooLong
      else
        let v : Int := digitsValue whole
        .ok (.int (if negative then -v else v), afterFraction, n + width)
    | _, _ =>
      let (e, ewidth) := match exponent with
        | some (negative, ds, w) =>
          let v : Int := digitsValue ds
          (if negative then -v else v, w)
        | none => (0, 0)
      let x := Binary64.ofDecimal negative (digitsValue (whole ++ fraction))
        (e - fraction.length)
      .ok (.float x, afterFraction.drop ewidth, n + width + ewidth)

/-- Reads a number; the offset is where it begins. -/
def readNumber : Reader Json := fun cs n =>
  match cs with
  | '-' :: rest => readUnsigned true rest n
  | _ => readUnsigned false cs n

/-! ## Values -/

/-- The words that are values. -/
def words : List (List Char × Json) :=
  [("null".toList, .null), ("true".toList, .bool true), ("false".toList, .bool false),
    ("NaN".toList, .float .nan), ("Infinity".toList, .float (.infinity false)),
    ("-Infinity".toList, .float (.infinity true))]

mutual
/-- Reads a value, in a text of the given length. -/
def readValue (length : Nat) : Nat → Reader Json
  | 0, _, n => .error (.flaw .value n)
  | fuel + 1, cs, n =>
    match cs with
    | [] => .error (.flaw .value n)
    | c :: rest =>
      if c = '"' then (readString length rest (n + 1)).map fun r => (.string r.1, r.2)
      else if c = '\x7b' then
        let (rest', n') := skipBlanks rest (n + 1)
        match rest' with
        | '\x7d' :: after => .ok (.object [], after, n' + 1)
        | _ =>
          (readMembers length fuel rest' n').map fun r =>
            (.object (Table.ofPairs r.1).entries, r.2)
      else if c = '[' then
        let (rest', n') := skipBlanks rest (n + 1)
        match rest' with
        | ']' :: after => .ok (.array [], after, n' + 1)
        | _ => (readItems length fuel rest' n').map fun r => (.array r.1, r.2)
      else
        match words.find? fun w => w.1.isPrefixOf cs with
        | some (w, v) => .ok (v, cs.drop w.length, n + w.length)
        | none => readNumber cs n

/-- Reads the items of a list and its closing bracket. -/
def readItems (length : Nat) : Nat → Reader (List Json)
  | 0, _, n => .error (.flaw .value n)
  | fuel + 1, cs, n =>
    match readValue length fuel cs n with
    | .error e => .error e
    | .ok (v, rest, n') =>
      let (rest, n') := skipBlanks rest n'
      match rest with
      | ']' :: after => .ok ([v], after, n' + 1)
      | ',' :: after =>
        let (after, n'') := skipBlanks after (n' + 1)
        (readItems length fuel after n'').map fun r => (v :: r.1, r.2)
      | _ => .error (.flaw .comma n')

/-- Reads the members of an object and its closing brace. -/
def readMembers (length : Nat) : Nat → Reader (List (String × Json))
  | 0, _, n => .error (.flaw .propertyName n)
  | fuel + 1, cs, n =>
    match cs with
    | '"' :: rest =>
      match readString length rest (n + 1) with
      | .error e => .error e
      | .ok (name, rest, n') =>
        let (rest, n') := skipBlanks rest n'
        match rest with
        | ':' :: rest =>
          let (rest, n') := skipBlanks rest (n' + 1)
          match readValue length fuel rest n' with
          | .error e => .error e
          | .ok (v, rest, n') =>
            let (rest, n') := skipBlanks rest n'
            match rest with
            | '\x7d' :: after => .ok ([(name, v)], after, n' + 1)
            | ',' :: after =>
              let (after, n'') := skipBlanks after (n' + 1)
              (readMembers length fuel after n'').map fun r => ((name, v) :: r.1, r.2)
            | _ => .error (.flaw .comma n')
        | _ => .error (.flaw .colon n')
    | _ => .error (.flaw .propertyName n)
end

/-- Reads a text as one value. -/
def read (cs : List Char) : Except ReadError Json :=
  match cs with
  | c :: _ =>
    if c.toNat = 0xFEFF then .error (.flaw .byteOrderMark 0)
    else
      let (rest, n) := skipBlanks cs 0
      match readValue cs.length (2 * cs.length + 2) rest n with
      | .error e => .error e
      | .ok (v, rest, n) =>
        let (rest, n) := skipBlanks rest n
        if rest.isEmpty then .ok v else .error (.flaw .extra n)
  | [] => .error (.flaw .value 0)

end Json
end NodeSchema
