import NodeSchema.Proofs.Spelling.Coverage
import NodeSchema.Proofs.Text.Position
import NodeSchema.Rust.Source
import NodeSchema.Spelling.File

/-!
# Where complaints about a spelling file stand

A spelling file is read as characters, and a source text as bytes; complaints about either tell a
line and a column.  A complaint about a lexeme stands where a source text of the same bytes has its
first character (`complain_eq`).

`places_agree` says in addition what a line and a column tell: which character of a well-formed text
they are about, and for any bytes, that a later offset has no earlier place.
-/

set_option autoImplicit false

namespace NodeSchema
namespace Spelling

open Text

/-- The lexeme of an index stands behind `front`; past the last lexeme, that is all of the text. -/
def StandsBehind (text : List Char) (index : Nat) (front : List Char) : Prop :=
  ∃ rest, text = front ++ rest ∧
    match (lexemes text)[index]? with
    | some l => l.offset = front.length ∧ l.text ≠ "" ∧ l.text.toList <+: rest
    | none => rest = []

theorem exists_standsBehind (path : String) (text : List Char) (index : Nat) :
    ∃ front, StandsBehind text index front ∧
      (File.ofText path text).offset index = front.length := by
  have htiles : Tiles [] text (lexemes text) := tiles_scanAfter [] text
  show ∃ front, _ ∧ (match (lexemes text)[index]? with
    | some l => l.offset
    | none => text.length) = _
  cases hl : (lexemes text)[index]? with
  | none =>
    refine ⟨text, ⟨[], (List.append_nil text).symm, ?_⟩, rfl⟩
    rw [hl]
  | some l =>
    obtain ⟨hne, front, rest, htext, hoffset, -⟩ :=
      htiles.exists_append l (List.mem_of_getElem? hl)
    refine ⟨front, ⟨l.text.toList ++ rest, htext, ?_⟩, hoffset⟩
    rw [hl]
    exact ⟨hoffset, hne, List.prefix_append _ _⟩

/-- **A complaint about a lexeme stands where the bytes of the text have its first character.** -/
theorem complain_eq (path : String) (text : List Char) (index : Nat) (complaint : Complaint) :
    ∃ front, StandsBehind text index front ∧
      (File.ofText path text).complain index complaint =
        (⟨path, encode text⟩ : Rust.Source).complain (encode front).length complaint := by
  obtain ⟨front, hfront, hoffset⟩ := exists_standsBehind path text index
  refine ⟨front, hfront, ?_⟩
  obtain ⟨rest, rfl, -⟩ := hfront
  rw [File.complain, hoffset, Rust.Source.complain, Position.inBytes_encode]
  rfl

/-- **Places agree, and tell what they are about.**  The line and the column of a complaint about a
lexeme, or about the end of the text, are those of its first character in the bytes of the text.  At
the offsets where characters of a well-formed text begin, places are in the order of the offsets, so
that no two of them have the same place.  In any bytes, a later offset has the same place or a later
one. -/
theorem places_agree :
    (∀ (path : String) (text : List Char) (index : Nat) (complaint : Complaint),
      ∃ front, StandsBehind text index front ∧
        (File.ofText path text).complain index complaint =
          (⟨path, encode text⟩ : Rust.Source).complain (encode front).length complaint) ∧
    (∀ (bytes : List UInt8) (text : List Char), decode? bytes = some text → ∀ m n,
      IsBoundary bytes m → IsBoundary bytes n →
        ((Position.inBytes bytes m).before (.inBytes bytes n) ↔ m < n) ∧
          (Position.inBytes bytes m = .inBytes bytes n ↔ m = n)) ∧
    ∀ (bytes : List UInt8) (m n : Nat), m ≤ n →
      (Position.inBytes bytes m).before (.inBytes bytes n) ∨
        Position.inBytes bytes m = .inBytes bytes n := by
  refine ⟨complain_eq, fun bytes text htext m n hm hn ↦ ?_, fun bytes m n hle ↦ ?_⟩
  · refine ⟨Position.before_inBytes_iff htext hm hn, fun hsame ↦ ?_, congrArg _⟩
    have hmn := mt (Position.before_inBytes_iff htext hm hn).mpr
    have hnm := mt (Position.before_inBytes_iff htext hn hm).mpr
    rw [hsame] at hmn hnm
    have hself := Position.not_before_self (.inBytes bytes n)
    exact Nat.le_antisymm (Nat.not_lt.mp (hnm hself)) (Nat.not_lt.mp (hmn hself))
  · by_cases hbefore : (Position.inBytes bytes m).before (.inBytes bytes n)
    · exact .inl hbefore
    · exact .inr (Position.eq_of_not_before hbefore (Position.not_before_inBytes bytes hle))

/-- A text of characters of one to four bytes. -/
def accented : List Char := ['é', '\n', '𝄞', ' ', '€', '[']

/-- A line feed after a character that is cut off. -/
def cutOff : List UInt8 := [0x61, 0xE2, 0x82, 0x0A]

theorem places_agree_accented :
    (decode? (encode accented) = some accented ∧ IsBoundary (encode accented) 3 ∧
      IsBoundary (encode accented) 8 ∧
        (Position.inBytes (encode accented) 3).before (.inBytes (encode accented) 8)) ∧
      (2 ≤ 3 ∧ ((Position.inBytes cutOff 2).before (.inBytes cutOff 3) ∨
        Position.inBytes cutOff 2 = .inBytes cutOff 3)) := by
  have hvalid : decode? (encode accented) = some accented := decode?_encode accented
  have hline : IsBoundary (encode accented) 3 :=
    isBoundary_encode_iff.mpr ⟨['é', '\n'], ['𝄞', ' ', '€', '['], rfl, by decide⟩
  have heuro : IsBoundary (encode accented) 8 :=
    isBoundary_encode_iff.mpr ⟨['é', '\n', '𝄞', ' '], ['€', '['], rfl, by decide⟩
  exact ⟨⟨hvalid, hline, heuro,
    (places_agree.2.1 _ _ hvalid 3 8 hline heuro).1.mpr (by decide)⟩,
    by decide, places_agree.2.2 cutOff 2 3 (by decide)⟩

end Spelling
end NodeSchema
