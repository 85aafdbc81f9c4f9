/-!
# The types of nodes

Every node has a type.  A node without a written one is a list or a mapping by its form, and a
scalar by its text if it is plain: the words for truth values and nothing, whole numbers in four
bases and in parts of sixty, numbers with a point, dates, and the two signs for merging and for a
default value.  All other scalars are strings.
-/

set_option autoImplicit false

namespace NodeSchema
namespace Yaml

/-- The type of a node. -/
inductive Tag
  | null
  | bool
  | int
  | float
  | string
  | binary
  | timestamp
  | list
  | mapping
  | set
  /-- A list of mappings of one entry each. -/
  | pairs
  /-- The key whose value is merged into its mapping. -/
  | merge
  /-- The key whose value stands for its mapping where a scalar is due. -/
  | default
  | other (name : String)
deriving DecidableEq, Repr

namespace Tag

/-- What the names of the known types begin with. -/
def base : String := "tag:yaml.org,2002:"

/-- The types by their names after `base`. -/
def known : List (String × Tag) :=
  [("null", .null), ("bool", .bool), ("int", .int), ("float", .float), ("str", .string),
   ("binary", .binary), ("timestamp", .timestamp), ("seq", .list), ("map", .mapping),
   ("set", .set), ("omap", .pairs), ("pairs", .pairs), ("merge", .merge), ("value", .default)]

/-- The type of a name. -/
def ofName (name : String) : Tag :=
  match known.find? fun k => base ++ k.1 = name with
  | some k => k.2
  | none => .other name

/-! ## Plain scalars -/

/-- Drops a sign. -/
def dropSign : List Char → List Char
  | '+' :: cs | '-' :: cs => cs
  | cs => cs

/-- All are digits of a kind, or underscores, and there is one. -/
def isRun (isDigit : Char → Bool) (cs : List Char) : Bool :=
  !cs.isEmpty && cs.all fun c => isDigit c || c = '_'

/-- Decimal digits and underscores, of which a digit is the first. -/
def isNumeral : List Char → Bool
  | c :: cs => c.isDigit && cs.all fun d => d.isDigit || d = '_'
  | [] => false

/-- A number below sixty. -/
def isSixtieth : List Char → Bool
  | [a] => a.isDigit
  | [a, b] => '0' ≤ a && a ≤ '5' && b.isDigit
  | _ => false

/-- The pieces of a text between the characters of a kind. -/
def splitAt (isCut : Char → Bool) : List Char → List (List Char)
  | [] => [[]]
  | c :: cs =>
    if isCut c then [] :: splitAt isCut cs
    else
      match splitAt isCut cs with
      | [] => [[c]]
      | part :: parts => (c :: part) :: parts

/-- The text is a whole number. -/
def isInt (cs : List Char) : Bool :=
  match dropSign cs with
  | ['0'] => true
  | '0' :: 'b' :: ds => isRun (fun c => c = '0' || c = '1') ds
  | '0' :: 'x' :: ds =>
    isRun (fun c => c.isDigit || ('a' ≤ c && c ≤ 'f') || ('A' ≤ c && c ≤ 'F')) ds
  | '0' :: ds => isRun (fun c => '0' ≤ c && c ≤ '7') ds
  | ds =>
    match splitAt (· = ':') ds with
    | whole :: parts => isNumeral whole && parts.all isSixtieth
    | [] => false

/-- The text is an exponent with its sign, or empty. -/
def isExponent : List Char → Bool
  | [] => true
  | e :: s :: ds =>
    (e = 'e' || e = 'E') && (s = '+' || s = '-') && !ds.isEmpty && ds.all Char.isDigit
  | _ => false

/-- The text is a number with a point. -/
def isFloat (cs : List Char) : Bool :=
  let unsigned := dropSign cs
  let isInfinity := [".inf", ".Inf", ".INF"].contains (String.ofList unsigned)
  let isNan := [".nan", ".NaN", ".NAN"].contains (String.ofList cs)
  let fraction (ds : List Char) : Bool :=
    isExponent (ds.dropWhile fun c => c.isDigit || c = '_')
  let isPointed : Bool :=
    match unsigned.dropWhile (· ≠ '.') with
    | '.' :: ds =>
      match splitAt (· = ':') (unsigned.takeWhile (· ≠ '.')) with
      | [whole] => isNumeral whole && fraction ds
      | whole :: parts =>
        isNumeral whole && parts.all isSixtieth && ds.all fun c => c.isDigit || c = '_'
      | [] => false
    | _ => false
  let isBare : Bool :=
    match cs with
    | '.' :: d :: ds => d.isDigit && fraction ds
    | _ => false
  isInfinity || isNan || isPointed || isBare

/-- The words for truth values. -/
def boolWords : List String :=
  ["yes", "Yes", "YES", "no", "No", "NO", "true", "True", "TRUE", "false", "False", "FALSE",
   "on", "On", "ON", "off", "Off", "OFF"]

/-- The words for nothing. -/
def nullWords : List String := ["", "~", "null", "Null", "NULL"]

end Tag
end Yaml
end NodeSchema
