/-!
# Bytes written in base 64

Four characters stand for three bytes.  Characters outside the alphabet are passed over, and padding
that completes a group ends the text; a group that is not complete is refused.
-/

set_option autoImplicit false

namespace NodeSchema
namespace Text
namespace Base64

/-- The value of a character of the alphabet. -/
def value? (c : Char) : Option Nat :=
  if 'A' ≤ c && c ≤ 'Z' then some (c.toNat - 65)
  else if 'a' ≤ c && c ≤ 'z' then some (c.toNat - 71)
  else if c.isDigit then some (c.toNat + 4)
  else if c = '+' then some 62
  else if c = '/' then some 63
  else none

/-- Decodes characters; `place` is the place in the group, `left` the bits left from the character
before, and `pads` the number of padding characters before. -/
def decodeFrom (place left pads : Nat) : List Char → Option (List UInt8)
  | [] => if place = 0 then some [] else none
  | c :: cs =>
    if c = '=' then
      if 2 ≤ place then
        if 4 ≤ place + pads + 1 then some [] else decodeFrom place left (pads + 1) cs
      else decodeFrom place left pads cs
    else
      match value? c with
      | none => decodeFrom place left pads cs
      | some v =>
        if place = 0 then decodeFrom 1 v 0 cs
        else if place = 1 then
          (decodeFrom 2 (v % 16) 0 cs).map (UInt8.ofNat (left * 4 + v / 16) :: ·)
        else if place = 2 then
          (decodeFrom 3 (v % 4) 0 cs).map (UInt8.ofNat (left * 16 + v / 4) :: ·)
        else (decodeFrom 0 0 0 cs).map (UInt8.ofNat (left * 64 + v) :: ·)

/-- Decodes a text. -/
def decode? (cs : List Char) : Option (List UInt8) := decodeFrom 0 0 0 cs

end Base64
end Text
end NodeSchema
