import NodeSchema.Decimal.Binary64

/-!
# The shortest decimal that reads back

A number is written with the fewest decimal digits from which `Binary64.ofDecimal` reads the same
number, and of two such decimals with the nearer one.  From 1 to 17 digits the two neighbours of
the number on the decimal grid are tried; 17 digits are always enough.

Positional notation is used from 0.0001 up to 10 to the 16th; below and above, an exponent of at
least two digits with its sign.
-/

set_option autoImplicit false

namespace NodeSchema
namespace Decimal

open Binary64

/-- A decimal number `digits * 10 ^ exponent`. -/
structure Scaled where
  digits : Nat
  exponent : Int
deriving DecidableEq, Repr

/-- The number of digits before the decimal point of a quotient that is not zero; it is negative
by the number of zeros after the point. -/
def pointOf (num den : Nat) : Int :=
  (decimalLength (num * Nat.pow 10 400 / den) : Int) - 400

/-- The two neighbours of a quotient on the decimal grid with the given exponent, the nearer one
first. -/
def neighbours (num den : Nat) (exponent : Int) : List Nat :=
  let (n, d) :=
    if exponent < 0 then (num * Nat.pow 10 (-exponent).toNat, den)
    else (num, den * Nat.pow 10 exponent.toNat)
  let q := n / d
  let r := n % d
  if 2 * r < d then [q, q + 1]
  else if 2 * r > d then [q + 1, q]
  else if q % 2 = 0 then [q, q + 1] else [q + 1, q]

/-- The decimal grid on which a number has so many digits. -/
def gridOf (significand : Nat) (exponent : Int) (count : Nat) : Int :=
  let r := ratio significand exponent
  pointOf r.1 r.2 - count

/-- A decimal with so many digits that reads back. -/
def withDigits? (significand : Nat) (exponent : Int) (count : Nat) : Option Scaled :=
  let r := ratio significand exponent
  let e := gridOf significand exponent count
  let readsBack (d : Nat) : Bool := ofDecimal false d e = .finite false significand exponent
  ((neighbours r.1 r.2 e).find? readsBack).map fun d => ⟨d, e⟩

/-- Looks for a decimal with at least `17 - fuel` digits that reads back. -/
def searchFrom (significand : Nat) (exponent : Int) : Nat → Scaled
  | 0 =>
    let (num, den) := ratio significand exponent
    ⟨num * Nat.pow 10 (Nat.log2 den), -(Nat.log2 den : Int)⟩
  | fuel + 1 =>
    (withDigits? significand exponent (17 - fuel)).getD (searchFrom significand exponent fuel)

/-- The shortest decimal from which a finite number that is not zero reads back. -/
def shortest (significand : Nat) (exponent : Int) : Scaled := searchFrom significand exponent 17

/-- Drops the zeros at the end of digits. -/
def trimZeros (ds : List Char) : List Char := (ds.reverse.dropWhile (· = '0')).reverse

/-- Writes digits with an exponent: one digit, the rest after a point. -/
def scientific (ds : List Char) (exponent : Int) : List Char :=
  let size := Nat.toDigits 10 exponent.natAbs
  let padded := if size.length < 2 then '0' :: size else size
  let mantissa := match ds with
    | d :: [] => [d]
    | d :: rest => d :: '.' :: rest
    | [] => []
  mantissa ++ 'e' :: (if exponent < 0 then '-' else '+') :: padded

/-- Writes digits with a point after the first `point` of them, and at least one digit on either
side of it. -/
def positional (ds : List Char) (point : Int) : List Char :=
  if point ≤ 0 then '0' :: '.' :: (List.replicate (-point).toNat '0' ++ ds)
  else
    let p := point.toNat
    if ds.length ≤ p then ds ++ List.replicate (p - ds.length) '0' ++ ['.', '0']
    else ds.take p ++ '.' :: ds.drop p

/-- A finite number that is not zero as text, without its sign. -/
def textOf (significand : Nat) (exponent : Int) : List Char :=
  let d := shortest significand exponent
  let all := Nat.toDigits 10 d.digits
  let point := (all.length : Int) + d.exponent
  let ds := trimZeros all
  if -4 < point && point ≤ 16 then positional ds point else scientific ds (point - 1)

end Decimal

/-- A number as text. -/
def Binary64.text : Binary64 → String
  | .nan => "nan"
  | .infinity false => "inf"
  | .infinity true => "-inf"
  | .finite s m e =>
    let body := if m = 0 then ['0', '.', '0'] else Decimal.textOf m e
    String.ofList (if s then '-' :: body else body)

end NodeSchema
