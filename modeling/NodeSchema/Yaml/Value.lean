import NodeSchema.Calendar
import NodeSchema.Decimal.Shortest
import NodeSchema.Text.Quoted
import NodeSchema.Yaml.Input
import NodeSchema.Yaml.Timestamp

/-!
# Values of a document

What the nodes of a document mean.  The keys of a mapping are values too; a mapping holds each key
once, and numbers and truth values that are equal are one key.

`Value.text` is the text that stands for a value where a string is due, and `Value.display` is its
text within another value.  A whole number of too many digits has no text (`Value.isShowable`).
-/

set_option autoImplicit false

namespace NodeSchema
namespace Yaml

/-- The meaning of a node. -/
inductive Value
  | null
  | bool (b : Bool)
  | int (n : Int)
  | float (x : Binary64)
  | string (s : String)
  | bytes (bs : List UInt8)
  | date (d : Date)
  | time (d : Date) (t : Time)
  | list (items : List Value)
  | pairs (items : List (Value × Value))
  /-- A set, in the order in which it shows its elements. -/
  | set (items : List Value)
  | mapping (entries : List (Value × Value))
  /-- A list or mapping that this value is within. -/
  | enclosing (isMapping : Bool)
deriving Repr

namespace Value

/-- The value may be a key. -/
def isKey : Value → Bool
  | .list _ | .pairs _ | .set _ | .mapping _ | .enclosing _ => false
  | _ => true

/-- The value counts as something: it is not null, false, zero or empty. -/
def isSomething : Value → Bool
  | .null => false
  | .bool b => b
  | .int n => n ≠ 0
  | .float (.finite _ m _) => m ≠ 0
  | .float _ => true
  | .string s => !s.isEmpty
  | .bytes bs => !bs.isEmpty
  | .list items | .set items => !items.isEmpty
  | .pairs items | .mapping items => !items.isEmpty
  | .date _ | .time _ _ | .enclosing _ => true

/-! ## Keys -/

/-- The whole number that a value counts as. -/
def whole? : Value → Option Int
  | .bool b => some (if b then 1 else 0)
  | .int n => some n
  | _ => none

/-- The two values are the same key. -/
def sameKey (a b : Value) : Bool :=
  match a, b with
  | .null, .null => true
  | .float x, .float y => x = y || Binary64.eq x y
  | .string s, .string t => s = t
  | .bytes x, .bytes y => x = y
  | .date d, .date e => d = e
  | .time d t, .time e u => d = e && t = u
  | .float x, other | other, .float x => other.whole?.any fun n => Binary64.eqInt n x
  | a, b => a.whole?.isSome && a.whole? = b.whole?

/-- Enters a value under a key; a key that is there keeps its place. -/
def enter (key value : Value) : List (Value × Value) → List (Value × Value)
  | [] => [(key, value)]
  | (k, v) :: es => if k.sameKey key then (k, value) :: es else (k, v) :: enter key value es

/-- The value under a string. -/
def find? (es : List (Value × Value)) (name : String) : Option Value :=
  (es.find? fun e => e.1.sameKey (.string name)).map Prod.snd

/-! ## Text -/

/-- A byte between quotes. -/
def byteText (quote : Char) (b : UInt8) : List Char :=
  let c := Char.ofNat b.toNat
  if c = quote || c = '\\' then ['\\', c]
  else if c = '\n' then ['\\', 'n']
  else if c = '\r' then ['\\', 'r']
  else if c = '\t' then ['\\', 't']
  else if 32 ≤ b.toNat && b.toNat < 127 then [c]
  else '\\' :: 'x' :: Text.hexDigits 2 b.toNat

/-- The text of bytes. -/
def bytesText (bs : List UInt8) : String :=
  let quote := Text.quoteFor (bs.map fun b => Char.ofNat b.toNat)
  String.ofList ('b' :: quote :: bs.flatMap (byteText quote) ++ [quote])

/-- The parts of a date, or of a date and time. -/
def numbersText (ns : List Nat) : String := ", ".intercalate (ns.map toString)

/-- A duration of less than a day in seconds, as days and seconds of which the latter are not
negative. -/
def durationText (seconds : Int) : String :=
  if seconds < 0 then
    "datetime.timedelta(days=-1, seconds=" ++ toString (seconds + dayLength) ++ ")"
  else "datetime.timedelta(seconds=" ++ toString seconds ++ ")"

/-- The text of a date with a time within another value; seconds and their fraction are left out if
they are zero. -/
def timeText (d : Date) (t : Time) : String :=
  let parts := [d.year, d.month, d.day, t.hour, t.minute]
    ++ (if t.micros ≠ 0 then [t.second, t.micros] else if t.second ≠ 0 then [t.second] else [])
  let zone := match t.offset with
    | none => ""
    | some o =>
      ", tzinfo=" ++
        if o = 0 then "datetime.timezone.utc"
        else "datetime.timezone(" ++ durationText o ++ ")"
  "datetime.datetime(" ++ numbersText parts ++ zone ++ ")"

/-- Puts the two parts of an item together. -/
def pairText (item : String × String) : String := "(" ++ item.1 ++ ", " ++ item.2 ++ ")"

mutual
/-- The text of a value within another one. -/
def display : Value → String
  | .null => "None"
  | .bool true => "True"
  | .bool false => "False"
  | .int n => toString n
  | .float x => x.text
  | .string s => Text.quoted s
  | .bytes bs => bytesText bs
  | .date d => "datetime.date(" ++ numbersText [d.year, d.month, d.day] ++ ")"
  | .time d t => timeText d t
  | .list items => "[" ++ ", ".intercalate (displayAll items) ++ "]"
  | .pairs items => "[" ++ ", ".intercalate ((displayPairs items).map pairText) ++ "]"
  | .set items =>
    if items.isEmpty then "set()"
    else "\x7b" ++ ", ".intercalate (displayAll items) ++ "\x7d"
  | .mapping entries =>
    "\x7b" ++ ", ".intercalate ((displayPairs entries).map fun e => e.1 ++ ": " ++ e.2) ++ "\x7d"
  | .enclosing true => "\x7b...\x7d"
  | .enclosing false => "[...]"
/-- The texts of values. -/
def displayAll : List Value → List String
  | [] => []
  | v :: vs => display v :: displayAll vs
/-- The texts of pairs of values. -/
def displayPairs : List (Value × Value) → List (String × String)
  | [] => []
  | (k, v) :: es => (display k, display v) :: displayPairs es
end

/-- The text that stands for a value where a string is due. -/
def text : Value → String
  | .string s => s
  | .date d => d.text
  | .time d t => d.text ++ " " ++ t.text
  | v => v.display

/-! ### Long numbers -/

/-- A whole number has no text if it has more digits than a text may have. -/
def fits : Value → Bool
  | .int n => (Nat.toDigits 10 n.natAbs).length ≤ maxDigits
  | _ => true

/-- The items of a list have texts, as far as they are shown by themselves. -/
def itemsFit : Value → Bool
  | .list items => items.all fits
  | _ => true

mutual
/-- The value has a text, with everything that is shown in it. -/
def isShowable : Value → Bool
  | .list items | .set items => areShowable items
  | .pairs items | .mapping items => arePairsShowable items
  | v => v.fits
/-- The values have texts. -/
def areShowable : List Value → Bool
  | [] => true
  | v :: vs => isShowable v && areShowable vs
/-- The pairs of values have texts. -/
def arePairsShowable : List (Value × Value) → Bool
  | [] => true
  | (k, v) :: es => isShowable k && isShowable v && arePairsShowable es
end

/-! ## Scalars -/

/-- The text of a string, number or truth value; other values have none. -/
def scalarText? : Value → Option String
  | .bool b => some (Value.bool b).text
  | .int n => some (Value.int n).text
  | .float x => some (Value.float x).text
  | .string s => some s
  | _ => none

/-- The entries of a mapping; other values have none. -/
def entries : Value → List (Value × Value)
  | .mapping es => es
  | _ => []

/-- The items of a list, as far as they are strings, numbers or truth values.  A string counts as
its only item, and bytes as numbers; other values have no items. -/
def itemTexts : Value → List String
  | .string s => [s]
  | .list items => items.filterMap scalarText?
  | .bytes bs => bs.map fun b => toString b.toNat
  | _ => []

end Value
end Yaml
end NodeSchema
