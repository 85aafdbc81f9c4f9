import NodeSchema.Proofs.Alike
import NodeSchema.Proofs.Spelling.Group
import NodeSchema.Spelling.Table

/-!
# Where the lexemes stand does not matter

The reader of a spelling file asks for the class and the text of a lexeme; where it stands only
goes into complaints.  So files that have the same lexemes but for their offsets (`File.SameTexts`)
hold the same table, or both hold none (`alike_ofFile`).  There is one lemma for each function of
the reader, in the order in which they use each other.
-/

set_option autoImplicit false

namespace NodeSchema
namespace Spelling

/-- The lexemes without their offsets. -/
def unplaced (ls : List Lexeme) : List (PieceKind × String) := ls.map fun l ↦ (l.kind, l.text)

theorem sameMark_of_unplaced_eq {ls ls' : List Lexeme} (h : unplaced ls = unplaced ls') :
    List.Forall₂ Lexeme.SameMark ls ls' := by
  rw [unplaced, unplaced, ← List.forall₂_eq_eq_eq, List.forall₂_map_left_iff,
    List.forall₂_map_right_iff] at h
  exact h.imp fun l l' hl ↦ ⟨congrArg Prod.fst hl, fun _ ↦ congrArg Prod.snd hl⟩

namespace File

/-- The files have the same lexemes but for the offsets. -/
def SameTexts (f f' : File) : Prop := unplaced f.lexemes = unplaced f'.lexemes

variable {f f' : File}

namespace SameTexts

theorem unplaced_drop (h : f.SameTexts f') (i : Nat) :
    unplaced (f.lexemes.drop i) = unplaced (f'.lexemes.drop i) := by
  rw [unplaced, unplaced, List.map_drop, List.map_drop]
  exact congrArg (List.drop i) h

theorem getElem?_text (h : f.SameTexts f') (i : Nat) :
    (f.lexemes[i]?).map Lexeme.text = (f'.lexemes[i]?).map Lexeme.text := by
  have hget := congrArg (fun ls : List (PieceKind × String) ↦ (ls[i]?).map Prod.snd) h
  simpa only [unplaced, List.getElem?_map, Option.map_map, Function.comp_def] using hget

theorem isText_eq (h : f.SameTexts f') (i : Nat) (text : String) :
    f.isText i text = f'.isText i text := by
  have hget := h.getElem?_text i
  rw [isText, isText]
  cases hl : f.lexemes[i]? with
  | none => rw [hl, Option.map_none, eq_comm, Option.map_eq_none_iff] at hget; rw [hget]
  | some l =>
    rw [hl, Option.map_some, eq_comm, Option.map_eq_some_iff] at hget
    obtain ⟨l', hl', htext⟩ := hget
    rw [hl']
    exact congrArg (fun t : String ↦ decide (t = text)) htext.symm

theorem closerOf_eq (h : f.SameTexts f') (i : Nat) :
    ((f.lexemes[i]?).bind fun l ↦ closerOf l.text) =
      (f'.lexemes[i]?).bind fun l ↦ closerOf l.text := by
  have hget := congrArg (Option.bind · closerOf) (h.getElem?_text i)
  simpa only [Option.bind_map, Function.comp_def] using hget

theorem render_eq (h : f.SameTexts f') (start stop : Nat) :
    f.render start stop = f'.render start stop := by
  have htexts := congrArg (List.map Prod.snd) h
  simp only [unplaced, List.map_map, Function.comp_def] at htexts
  rw [render, render, List.map_drop, List.map_take, List.map_drop, List.map_take]
  exact congrArg (fun ts ↦ String.join ((List.take stop ts).drop start)) htexts

theorem beginsTable_eq (h : f.SameTexts f') (i : Nat) : f.beginsTable i = f'.beginsTable i := by
  rw [beginsTable, beginsTable, h.isText_eq, h.isText_eq, h.isText_eq, h.closerOf_eq]

theorem closing_alike (h : f.SameTexts f') (i : Nat) :
    Alike (· = ·) (f.closing i) (f'.closing i) := by
  rw [closing, closing, h.closerOf_eq]
  split
  · exact .error
  · next due _ =>
    rw [closingFrom_congr (sameMark_of_unplaced_eq (h.unplaced_drop (i + 1)))]
    split
    · exact .ok rfl
    · exact .error
    · exact .error

theorem findTableFrom_alike (h : f.SameTexts f') {ls ls' : List Lexeme}
    (hls : unplaced ls = unplaced ls') (skip index : Nat) :
    Alike (· = ·) (f.findTableFrom skip index ls) (f'.findTableFrom skip index ls') := by
  induction ls generalizing ls' skip index with
  | nil =>
    obtain rfl := List.map_eq_nil_iff.mp hls.symm
    rw [findTableFrom, findTableFrom]
    exact .ok rfl
  | cons l ls ih =>
    obtain ⟨l', ls', rfl, hl, hls⟩ := List.map_eq_cons_iff.mp hls.symm
    obtain ⟨hkind, htext⟩ := Prod.mk.inj hl
    cases skip with
    | succ skip => exact ih hls.symm skip (index + 1)
    | zero =>
      rw [findTableFrom, findTableFrom, h.beginsTable_eq, ← hkind, ← htext]
      split
      · exact (h.closing_alike (index + 3)).map fun _ _ hstop ↦ by rw [hstop]
      · split
        · have hclosing := h.closing_alike index
          generalize f.closing index = x, f'.closing index = y at hclosing
          cases hclosing with
          | ok hstop => subst hstop; exact ih hls.symm _ _
          | error => exact .error
        · exact ih hls.symm 0 (index + 1)

theorem findTable_alike (h : f.SameTexts f') : Alike (· = ·) f.findTable f'.findTable :=
  h.findTableFrom_alike h 0 0

end SameTexts
end File

variable {f f' : File}

theorem alike_rule (h : f.SameTexts f') (index : Nat) :
    Alike (· = ·) (rule f index) (rule f' index) := by
  rw [rule, rule, h.isText_eq]
  split
  · exact .error
  · refine (h.closing_alike index).bind ?_
    rintro close _ rfl
    dsimp only
    rw [h.isText_eq, h.isText_eq, h.isText_eq]
    split
    · exact .error
    · split
      · exact .error
      · refine (h.closing_alike _).bind ?_
        rintro stop _ rfl
        rw [h.render_eq, h.render_eq]
        split
        · exact .error
        · exact .ok rfl

theorem alike_rulesFrom (h : f.SameTexts f') (stop fuel index : Nat) (table : Table String) :
    Alike (· = ·) (rulesFrom f stop fuel index table) (rulesFrom f' stop fuel index table) := by
  induction fuel generalizing index table with
  | zero => exact .ok rfl
  | succ fuel ih =>
    rw [rulesFrom, rulesFrom]
    split
    · refine (alike_rule h index).bind ?_
      rintro ⟨spelling, symbol, after⟩ _ rfl
      dsimp only
      rw [h.isText_eq]
      split
      · split
        · exact ih _ _
        · exact .error
      · exact .ok rfl
    · exact .ok rfl

/-- **Files with the same lexemes hold the same table**, wherever the lexemes stand. -/
theorem alike_ofFile (h : f.SameTexts f') : Alike (· = ·) (ofFile f) (ofFile f') := by
  refine h.findTable_alike.bind ?_
  rintro found _ rfl
  cases found with
  | none => exact .error
  | some range => exact alike_rulesFrom h _ _ _ _

end Spelling
end NodeSchema
