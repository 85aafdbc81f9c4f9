import NodeSchema.Calendar

/-!
# Dates and times

A date is written with four digits for the year and two for month and day; a time may follow, with
a fraction of the second and an offset from universal time.  A date with a time may leave out
leading zeros.
-/

set_option autoImplicit false

namespace NodeSchema
namespace Yaml

/-- A time of day. -/
structure Time where
  hour : Nat
  minute : Nat
  second : Nat
  /-- Millionths of the second. -/
  micros : Nat
  /-- Seconds ahead of universal time. -/
  offset : Option Int
deriving DecidableEq, Repr

/-! ## Reading -/

/-- Takes at least `least` and at most `most` digits. -/
def takeDigits (least most : Nat) (cs : List Char) : Option (Nat × List Char) :=
  let ds := (cs.takeWhile Char.isDigit).take most
  if ds.length < least then none else some (numeral ds, cs.drop ds.length)

/-- Takes a character. -/
def takeChar (c : Char) : List Char → Option (List Char)
  | d :: cs => if d = c then some cs else none
  | [] => none

/-- Takes a date; with `isFull`, month and day have two digits. -/
def takeDate (isFull : Bool) (cs : List Char) : Option (Date × List Char) := do
  let least := if isFull then 2 else 1
  let (year, cs) ← takeDigits 4 4 cs
  let (month, cs) ← takeDigits least 2 (← takeChar '-' cs)
  let (day, cs) ← takeDigits least 2 (← takeChar '-' cs)
  some (⟨year, month, day⟩, cs)

def isTimeBlank (c : Char) : Bool := c = ' ' || c = '\t'

/-- Takes what stands between a date and its time. -/
def takeSeparator : List Char → Option (List Char)
  | 'T' :: cs | 't' :: cs => some cs
  | cs =>
    let n := (cs.takeWhile isTimeBlank).length
    if n = 0 then none else some (cs.drop n)

/-- Takes a fraction of a second, in millionths. -/
def takeFraction : List Char → Nat × List Char
  | '.' :: cs =>
    let ds := cs.takeWhile Char.isDigit
    (numeral ((ds ++ List.replicate 6 '0').take 6), cs.drop ds.length)
  | cs => (0, cs)

/-- The rest of a time is its offset, of which there may be none. -/
def offsetOf (cs : List Char) : Option (Option Int) :=
  match cs.dropWhile isTimeBlank with
  | [] => if cs.isEmpty then some none else none
  | ['Z'] => some (some 0)
  | s :: ds =>
    if s = '+' || s = '-' then do
      let (hours, ds) ← takeDigits 1 2 ds
      let minutes ← match ds with
        | [] => some 0
        | _ => do
          let (minutes, ds) ← takeDigits 2 2 (← takeChar ':' ds)
          if ds.isEmpty then some minutes else none
      let seconds : Int := (hours * 3600 + minutes * 60 : Nat)
      some (some (if s = '-' then -seconds else seconds))
    else none

/-- Takes a time; nothing may follow. -/
def timeOf (cs : List Char) : Option Time := do
  let (hour, cs) ← takeDigits 1 2 cs
  let (minute, cs) ← takeDigits 2 2 (← takeChar ':' cs)
  let (second, cs) ← takeDigits 2 2 (← takeChar ':' cs)
  let (micros, cs) := takeFraction cs
  some ⟨hour, minute, second, micros, ← offsetOf cs⟩

/-- Reads a date with the time that may follow. -/
def readTimestamp (isFull : Bool) (cs : List Char) : Option (Date × Option Time) :=
  match takeDate isFull cs with
  | some (d, []) => some (d, none)
  | _ => do
    let (d, cs) ← takeDate false cs
    some (d, some (← timeOf (← takeSeparator cs)))

/-! ## What there is -/

/-- The number of seconds of a day. -/
def dayLength : Nat := 86400

/-- The time is one of the day, and its offset less than a day. -/
def Time.isValid (t : Time) : Bool :=
  t.hour < 24 && t.minute < 60 && t.second < 60
    && (t.offset.getD 0).natAbs < dayLength

/-! ## Writing -/

/-- The text of an offset; it has seconds only if they are not zero. -/
def offsetText (seconds : Int) : String :=
  let n := seconds.natAbs
  (if seconds < 0 then "-" else "+") ++ padded 2 (n / 3600) ++ ":" ++ padded 2 (n / 60 % 60)

/-- The text of a time. -/
def Time.text (t : Time) : String :=
  padded 2 t.hour ++ ":" ++ padded 2 t.minute ++ ":" ++ padded 2 t.second
    ++ (if t.micros = 0 then "" else "." ++ padded 6 t.micros)
    ++ (match t.offset with
      | some o => offsetText o
      | none => "")

end Yaml
end NodeSchema
