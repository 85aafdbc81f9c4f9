import NodeSchema.Decimal.Binary64
import NodeSchema.Text.Blank
import NodeSchema.Yaml.Input
import NodeSchema.Yaml.Tag

/-!
# The values of numbers

Underscores in a number count for nothing.  A whole number is binary, octal, hexadecimal or decimal
by its first digits; with colons, every part counts sixty times as much as the next.

A scalar that is called a number need not be one: it has then no value of its type.
-/

set_option autoImplicit false

namespace NodeSchema
namespace Yaml
namespace Number

/-- Drops the underscores. -/
def digitsOf (text : String) : List Char := text.toList.filter (· ≠ '_')

/-- Takes a sign, and tells whether it is a minus. -/
def sign : List Char → Bool × List Char
  | '-' :: cs => (true, cs)
  | '+' :: cs => (false, cs)
  | cs => (false, cs)

/-! ## Whole numbers -/

/-- The letter between a zero and the digits of a base. -/
def baseLetter (base : Nat) : List Char :=
  if base = 2 then ['b', 'B'] else if base = 8 then ['o', 'O']
  else if base = 16 then ['x', 'X'] else []

/-- Drops the zero and letter of a base. -/
def dropBase (base : Nat) : List Char → List Char
  | '0' :: c :: cs => if (baseLetter base).contains c then cs else '0' :: c :: cs
  | cs => cs

/-- The number that digits of a base are, with blanks around and a sign. -/
def inBase (base : Nat) (cs : List Char) : Except Refusal Int :=
  let (negative, ds) := sign (Text.stripBlanks cs)
  let ds := dropBase base ds
  match ds.mapM hexValue? with
  | some vs =>
    if ds.isEmpty || vs.any (base ≤ ·) || (base = 10 && maxDigits < ds.length) then
      .error (.fault .badValue)
    else
      let n : Int := (vs.foldl (fun n d => n * base + d) 0 : Nat)
      .ok (if negative then -n else n)
  | none => .error (.fault .badValue)

/-- Parts that count sixty times as much as the next. -/
def sixtieths (parts : List Int) : Int := parts.foldl (fun n p => n * 60 + p) 0

/-- The value of a whole number. -/
def int (text : String) : Except Refusal Int :=
  let all := digitsOf text
  if all.isEmpty then .error (.fault .missingItem)
  else
    let (negative, ds) := sign all
    let size : Except Refusal Int :=
      match ds with
      | [] => .error (.fault .missingItem)
      | ['0'] => .ok 0
      | '0' :: 'b' :: bs => inBase 2 bs
      | '0' :: 'x' :: hs => inBase 16 hs
      | '0' :: _ => inBase 8 ds
      | _ =>
        if ds.contains ':' then
          ((Tag.splitAt (· = ':') ds).mapM (inBase 10)).map sixtieths
        else inBase 10 ds
    size.map fun n => if negative then -n else n

/-! ## Numbers with a point -/

/-- The number that decimal digits with a point and an exponent are, with blanks around and a
sign; or the word for infinity or no number. -/
def decimal (cs : List Char) : Except Refusal Binary64 :=
  let (negative, ds) := sign (Text.stripBlanks cs)
  let word := String.ofList ds
  if word = "inf" || word = "infinity" then .ok (.infinity negative)
  else if word = "nan" then .ok .nan
  else
    let whole := ds.takeWhile Char.isDigit
    let rest := ds.drop whole.length
    let fraction : List Char :=
      match rest with
      | '.' :: fs => fs.takeWhile Char.isDigit
      | _ => []
    let rest : List Char :=
      match rest with
      | '.' :: fs => fs.drop fraction.length
      | _ => rest
    let mantissa := whole ++ fraction
    let number (ds : List Char) : Nat := ds.foldl (fun n c => n * 10 + (c.toNat - 48)) 0
    let value (exponent : Int) : Binary64 :=
      .ofDecimal negative (number mantissa) (exponent - fraction.length)
    if mantissa.isEmpty then .error (.fault .badValue)
    else
      match rest with
      | [] => .ok (value 0)
      | e :: es =>
        let (down, xs) := sign es
        if e ≠ 'e' || xs.isEmpty || !xs.all Char.isDigit then .error (.fault .badValue)
        else .ok (value (if down then -(number xs : Int) else number xs))

/-- Parts that count sixty times as much as the next, summed from the last on. -/
def sixtiethSum (sum : Binary64) (weight : Nat) : List Binary64 → Binary64
  | [] => sum
  | p :: ps => sixtiethSum (sum.add (p.mul (.ofRatio false weight 1))) (weight * 60) ps

/-- The value of a number with a point. -/
def float (text : String) : Except Refusal Binary64 :=
  let all := (digitsOf text).map Char.toLower
  if all.isEmpty then .error (.fault .missingItem)
  else
    let (negative, ds) := sign all
    let withSign (x : Binary64) : Binary64 := if negative then x.neg else x
    let word := String.ofList ds
    if word = ".inf" then .ok (.infinity negative)
    else if word = ".nan" then .ok .nan
    else if ds.contains ':' then
      ((Tag.splitAt (· = ':') ds).mapM decimal).map fun parts =>
        withSign (sixtiethSum (.zero false) 1 parts.reverse)
    else (decimal ds).map withSign

end Number
end Yaml
end NodeSchema
