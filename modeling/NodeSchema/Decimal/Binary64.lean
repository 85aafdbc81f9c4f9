/-!
# Binary floating-point numbers

The numbers of 64-bit binary floating point, given by an exact significand and exponent:
`finite s m e` is the number `m * 2 ^ e`, negated if `s`.  Numbers are kept canonical — the
significand has 53 bits unless the exponent is the least one — so that equal numbers are equal
values, the two zeros apart.

`ofRatio` rounds a quotient to the nearest number, and on a tie to the one with an even
significand; `ofDecimal` does so for a decimal number.
-/

set_option autoImplicit false

namespace NodeSchema

/-- A number of 64-bit binary floating point. -/
inductive Binary64
  | nan
  | infinity (negative : Bool)
  | finite (negative : Bool) (significand : Nat) (exponent : Int)
deriving DecidableEq, Repr

namespace Binary64

/-- The least exponent. -/
def minExponent : Int := -1074

/-- The greatest exponent. -/
def maxExponent : Int := 971

/-- The first number that has too many bits for a significand. -/
def significandBound : Nat := Nat.pow 2 53

/-- Zero. -/
def zero (negative : Bool) : Binary64 := .finite negative 0 minExponent

/-- A quotient rounded to the nearest whole number, and on a tie to the even one. -/
def roundDiv (num den : Nat) : Nat :=
  let q := num / den
  let r := num % den
  if 2 * r < den then q
  else if 2 * r > den then q + 1
  else if q % 2 = 0 then q else q + 1

/-- A quotient divided by a power of two, as a quotient. -/
def scaled (num den : Nat) (e : Int) : Nat × Nat :=
  if e < 0 then (num * Nat.pow 2 (-e).toNat, den) else (num, den * Nat.pow 2 e.toNat)

/-- The exponent of the number nearest to a quotient that is not zero. -/
def exponentOf (num den : Nat) : Int :=
  let e := max ((num.log2 : Int) - (den.log2 : Int) - 53) minExponent
  let (n, d) := scaled num den e
  if significandBound ≤ n / d then e + 1 else e

/-- The number nearest to a quotient. -/
def ofRatio (negative : Bool) (num den : Nat) : Binary64 :=
  if num = 0 then zero negative
  else
    let e := exponentOf num den
    let (n, d) := scaled num den e
    let m := roundDiv n d
    let (m, e) := if m = significandBound then (m / 2, e + 1) else (m, e)
    if maxExponent < e then .infinity negative else .finite negative m e

/-- The number of decimal digits. -/
def decimalLength (n : Nat) : Nat := (Nat.toDigits 10 n).length

/-- The number nearest to `digits * 10 ^ exponent`. -/
def ofDecimal (negative : Bool) (digits : Nat) (exponent : Int) : Binary64 :=
  if digits = 0 then zero negative
  else
    let reach := exponent + decimalLength digits
    if 400 < reach then .infinity negative
    else if reach < -400 then zero negative
    else if exponent < 0 then ofRatio negative digits (Nat.pow 10 (-exponent).toNat)
    else ofRatio negative (digits * Nat.pow 10 exponent.toNat) 1

/-- The size of a finite number as a quotient. -/
def ratio (significand : Nat) (exponent : Int) : Nat × Nat :=
  if exponent < 0 then (significand, Nat.pow 2 (-exponent).toNat)
  else (significand * Nat.pow 2 exponent.toNat, 1)

/-! ## Arithmetic -/

/-- A whole number times a power of two, as a quotient with a sign. -/
def signedRatio (negative : Bool) (significand : Nat) (exponent : Int) : Int × Nat :=
  let (n, d) := ratio significand exponent
  (if negative then -(n : Int) else n, d)

/-- The number with the other sign. -/
def neg : Binary64 → Binary64
  | .nan => .nan
  | .infinity s => .infinity !s
  | .finite s m e => .finite (!s) m e

/-- The sum of two numbers, rounded. -/
def add : Binary64 → Binary64 → Binary64
  | .nan, _ | _, .nan => .nan
  | .infinity s, .infinity t => if s = t then .infinity s else .nan
  | .infinity s, .finite _ _ _ | .finite _ _ _, .infinity s => .infinity s
  | .finite s m e, .finite t n f =>
    let (a, b) := signedRatio s m e
    let (c, d) := signedRatio t n f
    let sum := a * d + c * b
    ofRatio (if sum = 0 then s && t else decide (sum < 0)) sum.natAbs (b * d)

/-- The product of two numbers, rounded. -/
def mul : Binary64 → Binary64 → Binary64
  | .nan, _ | _, .nan => .nan
  | .infinity s, .infinity t => .infinity (s != t)
  | .infinity s, .finite t m _ | .finite t m _, .infinity s =>
    if m = 0 then .nan else .infinity (s != t)
  | .finite s m e, .finite t n f =>
    let (a, b) := ratio m e
    let (c, d) := ratio n f
    ofRatio (s != t) (a * c) (b * d)

/-! ## Order -/

/-- The first number is less than the second.  A number that is none is less than nothing. -/
def lt : Binary64 → Binary64 → Bool
  | .nan, _ | _, .nan => false
  | .infinity s, .infinity t => s && !t
  | .infinity s, .finite _ _ _ => s
  | .finite _ _ _, .infinity t => !t
  | .finite s m e, .finite t n f =>
    let (a, b) := signedRatio s m e
    let (c, d) := signedRatio t n f
    a * d < c * b

/-- The two numbers are equal. -/
def eq : Binary64 → Binary64 → Bool
  | .nan, _ | _, .nan => false
  | .finite s m e, .finite t n f => (m = 0 && n = 0) || (s = t && m = n && e = f)
  | .infinity s, .infinity t => s = t
  | _, _ => false

/-- A whole number and a number are equal. -/
def eqInt (n : Int) : Binary64 → Bool
  | .finite s m e =>
    let (a, b) := signedRatio s m e
    n * b = a
  | _ => false

/-- A whole number is less than a number. -/
def intLt (n : Int) : Binary64 → Bool
  | .nan => false
  | .infinity s => !s
  | .finite s m e =>
    let (a, b) := signedRatio s m e
    n * b < a

/-- A number is less than a whole number. -/
def ltInt (n : Int) : Binary64 → Bool
  | .nan => false
  | .infinity s => s
  | .finite s m e =>
    let (a, b) := signedRatio s m e
    a < n * b

end Binary64
end NodeSchema
