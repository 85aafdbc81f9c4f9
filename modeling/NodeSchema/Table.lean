/-!
# Tables in order of entry

A table maps names to values and lists its entries in the order in which their names came first.
Entering a name again replaces the value and keeps the place.

`Table.find?` is the view: `find?_insert` says what an entry changes.
-/

set_option autoImplicit false

namespace NodeSchema

/-- A table of entries, each name once, in order of entry. -/
structure Table (α : Type) where
  entries : List (String × α)
deriving Repr, DecidableEq

namespace Table

variable {α : Type}

/-- The table without entries. -/
def empty : Table α := ⟨[]⟩

/-- Enters a value among entries. -/
def insertInto (name : String) (value : α) : List (String × α) → List (String × α)
  | [] => [(name, value)]
  | (n, v) :: rest =>
    if n = name then (n, value) :: rest else (n, v) :: insertInto name value rest

/-- Enters a value under a name. -/
def insert (t : Table α) (name : String) (value : α) : Table α :=
  ⟨insertInto name value t.entries⟩

/-- The value under a name. -/
def find? (t : Table α) (name : String) : Option α :=
  (t.entries.find? fun e => e.1 = name).map Prod.snd

/-- The names of a table, in order. -/
def names (t : Table α) : List String := t.entries.map Prod.fst

/-- A name has an entry. -/
def has (t : Table α) (name : String) : Bool := t.names.contains name

/-- The number of entries. -/
def size (t : Table α) : Nat := t.entries.length

/-- Enters values one after the other. -/
def insertAll (t : Table α) (pairs : List (String × α)) : Table α :=
  pairs.foldl (fun t p => t.insert p.1 p.2) t

/-- The table of the given pairs. -/
def ofPairs (pairs : List (String × α)) : Table α := empty.insertAll pairs

/-! ## The view -/

theorem find?_insertInto (name other : String) (value : α) (es : List (String × α)) :
    ((insertInto name value es).find? fun e => e.1 = other).map Prod.snd =
      if name = other then some value
      else (es.find? fun e => e.1 = other).map Prod.snd := by
  induction es with
  | nil => by_cases h : name = other <;> simp [insertInto, h]
  | cons e rest ih =>
    obtain ⟨n, v⟩ := e
    by_cases hn : n = name
    · subst hn; by_cases h : n = other <;> simp [insertInto, h]
    · by_cases h : n = other
      · subst h; simp [insertInto, hn, Ne.symm hn]
      · simp [insertInto, hn, h, ih]

/-- Entering a value changes what its name maps to, and nothing else. -/
theorem find?_insert (t : Table α) (name other : String) (value : α) :
    (t.insert name value).find? other = if name = other then some value else t.find? other :=
  find?_insertInto name other value t.entries

theorem names_insertInto (name : String) (value : α) (es : List (String × α)) :
    (insertInto name value es).map Prod.fst =
      if name ∈ es.map Prod.fst then es.map Prod.fst else es.map Prod.fst ++ [name] := by
  induction es with
  | nil => simp [insertInto]
  | cons e rest ih =>
    obtain ⟨n, v⟩ := e
    by_cases hn : n = name
    · simp [insertInto, hn]
    · simp only [insertInto, hn, if_false, List.map_cons, ih]
      split <;> simp_all [Ne.symm hn]

/-- A new name comes last; a known one keeps its place. -/
theorem names_insert (t : Table α) (name : String) (value : α) :
    (t.insert name value).names = if name ∈ t.names then t.names else t.names ++ [name] :=
  names_insertInto name value t.entries

end Table
end NodeSchema
