import NodeSchema.Text.WordChar

/-!
# Paths

A path is a sequence of names with `::` between them, and possibly in front.  A name begins with an
ASCII letter or the underscore and goes on with word characters.
-/

set_option autoImplicit false

namespace NodeSchema
namespace Text

/-- The text goes on as a path inside a name. -/
def isPathTail : List Char → Bool
  | [] => true
  | ':' :: ':' :: c :: rest => isNameStart c && isPathTail rest
  | c :: rest => isWordChar c && isPathTail rest

/-- The text is a name and, after each `::`, a further name. -/
def isPathFrom : List Char → Bool
  | [] => false
  | c :: rest => isNameStart c && isPathTail rest

/-- The text is a path: names with `::` between them, and possibly in front.  One line feed at the
end is passed over. -/
def isPath (text : String) : Bool :=
  let cs := text.toList
  let cs := if cs.getLast? = some '\n' then cs.dropLast else cs
  match cs with
  | ':' :: ':' :: rest => isPathFrom rest
  | _ => isPathFrom cs

/-- Cuts characters at every `::`; `part` holds those since the last cut, in reverse. -/
def splitColonsFrom : List Char → List Char → List (List Char)
  | part, ':' :: ':' :: rest => part.reverse :: splitColonsFrom [] rest
  | part, c :: rest => splitColonsFrom (c :: part) rest
  | part, [] => [part.reverse]

/-- Cuts characters at every `::`. -/
def splitColons (cs : List Char) : List (List Char) := splitColonsFrom [] cs

/-- What follows the last `::`. -/
def lastPart (cs : List Char) : List Char := (splitColons cs).getLast?.getD []

end Text
end NodeSchema
