import NodeSchema.Decimal.Shortest
import NodeSchema.Table
import NodeSchema.Text.Quoted

/-!
# JSON values

A value as read from JSON text.  Whole numbers are unbounded; all other numbers are binary floating
point.  The members of an object are listed in order, each name once.

`Json.display` is the text of a value in messages, where strings stand in quotes;
`Json.asText` is the text that stands for a value where a string is due.
-/

set_option autoImplicit false

namespace NodeSchema

/-- A value as read from JSON text. -/
inductive Json
  | null
  | bool (b : Bool)
  | int (n : Int)
  | float (x : Binary64)
  | string (s : String)
  | array (items : List Json)
  | object (members : List (String × Json))
deriving Repr

namespace Json

/-- The member of a name. -/
def member? (members : List (String × Json)) (name : String) : Option Json :=
  (members.find? fun m => m.1 = name).map Prod.snd

/-- The value counts as true: it is not null, false, zero or empty. -/
def isTruthy : Json → Bool
  | .null => false
  | .bool b => b
  | .int n => n ≠ 0
  | .float (.finite _ m _) => m ≠ 0
  | .float _ => true
  | .string s => !s.isEmpty
  | .array items => !items.isEmpty
  | .object members => !members.isEmpty

/-! ## The text of a value in messages -/

mutual
/-- The text of a value in messages. -/
def display : Json → String
  | .null => "None"
  | .bool true => "True"
  | .bool false => "False"
  | .int n => toString n
  | .float x => x.text
  | .string s => Text.quoted s
  | .array items => "[" ++ ", ".intercalate (displayItems items) ++ "]"
  | .object members => "\x7b" ++ ", ".intercalate (displayMembers members) ++ "\x7d"
/-- The texts of the items of a list. -/
def displayItems : List Json → List String
  | [] => []
  | v :: vs => display v :: displayItems vs
/-- The texts of the members of an object. -/
def displayMembers : List (String × Json) → List String
  | [] => []
  | (n, v) :: ms => (Text.quoted n ++ ": " ++ display v) :: displayMembers ms
end

/-- The text that stands for a value where a string is due: a string stands for itself. -/
def asText : Json → String
  | .string s => s
  | v => v.display

end Json
end NodeSchema
