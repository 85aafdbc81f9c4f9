import NodeSchema.Alias
import NodeSchema.Proofs.Rust.TypeTree

/-!
# The text of a path

The segments of a path are cut from its text, and so is the name that an import renames.
`IsPathText` says what the text of a path is: names with `::` between them, and blanks around each
name.  The cuts give the names of such a text and nothing else (`segmentsOf_of_isPathText`,
`originalName_of_isPathText`).
-/

set_option autoImplicit false

namespace NodeSchema
namespace Rust

open Text

/-! ## Cutting at colons -/

/-- The last character is no colon. -/
def EndsFirm (cs : List Char) : Prop := cs.getLast? ≠ some ':'

theorem endsFirm_nil : EndsFirm [] := by
  rw [EndsFirm, List.getLast?_nil]
  exact (Option.some_ne_none _).symm

theorem EndsFirm.tail {c d : Char} {cs : List Char} (h : EndsFirm (c :: d :: cs)) :
    EndsFirm (d :: cs) := by
  rwa [EndsFirm, List.getLast?_cons_cons] at h

theorem endsFirm_append {cs ds : List Char} (hds : ds ≠ []) (h : ':' ∉ ds) :
    EndsFirm (cs ++ ds) := by
  intro hlast
  rw [List.getLast?_append, List.getLast?_eq_some_getLast hds, Option.some_or] at hlast
  exact h (Option.some.inj hlast ▸ List.getLast_mem hds)

theorem splitColonsFrom_append_colons {part cs : List Char} (h : EndsFirm cs) (ds : List Char) :
    splitColonsFrom part (cs ++ ':' :: ':' :: ds) = splitColonsFrom part cs ++ splitColons ds := by
  fun_induction splitColonsFrom part cs with
  | case1 part rest ih =>
    cases rest with
    | nil => exact absurd rfl h
    | cons c rest => rw [List.cons_append, List.cons_append, splitColonsFrom, ih h.tail.tail,
        List.cons_append]
  | case2 part c rest hcolons ih =>
    have hrest : EndsFirm rest := by
      cases rest with
      | nil => exact endsFirm_nil
      | cons d rest => exact h.tail
    rw [List.cons_append, splitColonsFrom, ih hrest]
    -- A single colon in front of the cut would be the last character.
    rintro rest' rfl hrest'
    cases rest with
    | nil => exact h rfl
    | cons d rest => exact hcolons rest rfl (congrArg (· :: rest) (List.cons.inj hrest').1)
  | case3 part => rfl

theorem splitColons_append_colons {cs : List Char} (h : EndsFirm cs) (ds : List Char) :
    splitColons (cs ++ ':' :: ':' :: ds) = splitColons cs ++ splitColons ds :=
  splitColonsFrom_append_colons h ds

theorem splitColons_of_notMem {cs : List Char} (h : ':' ∉ cs) : splitColons cs = [cs] := by
  have hsplit := @splitColons_flatMap cs [] h fun _ hmem ↦ absurd hmem List.not_mem_nil
  rwa [List.flatMap_nil, List.append_nil] at hsplit

/-! ## Names -/

/-- The text is a token that names a part of a path: a word, perhaps in its raw form, or a variable
of a macro. -/
def IsPathName (text : String) : Prop :=
  ∃ front ∈ ["", "r#", "$"], ∃ word, IsWord word ∧ text = front ++ word

theorem IsWord.isPathName {word : String} (h : IsWord word) : IsPathName word :=
  ⟨"", List.mem_cons_self, word, h, String.empty_append.symm⟩

namespace IsPathName

variable {name : String} (h : IsPathName name)
include h

theorem ne_nil : name.toList ≠ [] := by
  obtain ⟨front, -, word, ⟨c, u, hword, -⟩, rfl⟩ := h
  rw [String.toList_append, hword]
  exact List.append_ne_nil_of_right_ne_nil _ (List.cons_ne_nil _ _)

/-- No character that ends a word is a part of a name, but for the signs in front of some. -/
theorem notMem {c : Char} (hc : isIdentContinue c = false) (hfront : c ≠ '#' ∧ c ≠ '$') :
    c ∉ name.toList := by
  obtain ⟨front, hmem, word, hword, rfl⟩ := h
  rw [String.toList_append, List.mem_append, not_or]
  refine ⟨fun h ↦ ?_, hword.notMem hc⟩
  have hsigns : ∀ front ∈ ["", "r#", "$"], ∀ d ∈ front.toList, d ∈ ['r', '#', '$'] := by
    simp
  have hsign := hsigns front hmem c h
  simp only [List.mem_cons, List.not_mem_nil, or_false, hfront.1, hfront.2] at hsign
  rw [hsign] at hc
  revert hc
  decide

theorem colon_notMem : ':' ∉ name.toList := h.notMem (by decide) (by decide)

theorem isBlank_of_mem {c : Char} (hc : c ∈ name.toList) : isBlank c = false := by
  refine Bool.eq_false_iff.mpr fun hblank ↦ ?_
  refine h.notMem (isIdentContinue_of_isBlank hblank) ⟨?_, ?_⟩ hc <;> rintro rfl <;>
    revert hblank <;> decide

end IsPathName

/-! ## Names with blanks around them -/

/-- The characters are a name with blanks around it. -/
inductive IsSpaced (name : String) : List Char → Prop
  | mk {front back : List Char} (hfront : ∀ c ∈ front, isBlank c = true) (hname : IsPathName name)
      (hback : ∀ c ∈ back, isBlank c = true) : IsSpaced name (front ++ (name.toList ++ back))

theorem IsPathName.isSpaced {name : String} (h : IsPathName name) : IsSpaced name name.toList := by
  have hspaced := @IsSpaced.mk name [] [] nofun h nofun
  rwa [List.nil_append, List.append_nil] at hspaced

theorem removeBlanks_append (cs ds : List Char) :
    removeBlanks (cs ++ ds) = removeBlanks cs ++ removeBlanks ds := List.filter_append ..

theorem removeBlanks_eq_nil {cs : List Char} (h : ∀ c ∈ cs, isBlank c = true) :
    removeBlanks cs = [] :=
  List.filter_eq_nil_iff.mpr fun c hc ↦ by rw [h c hc]; exact Bool.false_ne_true

theorem removeBlanks_eq_self {cs : List Char} (h : ∀ c ∈ cs, isBlank c = false) :
    removeBlanks cs = cs :=
  List.filter_eq_self.mpr fun c hc ↦ by rw [h c hc]; rfl

theorem dropWhile_isBlank {gap cs : List Char} (hgap : ∀ c ∈ gap, isBlank c = true)
    (hcs : ∀ c ∈ cs.head?, isBlank c = false) : (gap ++ cs).dropWhile isBlank = cs := by
  rw [List.dropWhile_append_of_pos hgap]
  cases cs with
  | nil => rfl
  | cons c cs => rw [List.dropWhile_cons_of_neg (by rw [hcs c rfl]; exact Bool.false_ne_true)]

namespace IsSpaced

variable {name : String} {cs : List Char} (h : IsSpaced name cs)
include h

theorem isPathName : IsPathName name := by
  cases h with
  | mk _ hname _ => exact hname

theorem removeBlanks_eq : removeBlanks cs = name.toList := by
  cases h with
  | mk hfront hname hback =>
    rw [removeBlanks_append, removeBlanks_append, removeBlanks_eq_nil hfront,
      removeBlanks_eq_nil hback, removeBlanks_eq_self fun _ ↦ hname.isBlank_of_mem,
      List.append_nil, List.nil_append]

theorem stripBlanks_eq : stripBlanks cs = name.toList := by
  cases h with
  | @mk front back hfront hname hback =>
    have hhead : ∀ c ∈ (name.toList ++ back).head?, isBlank c = false := by
      rw [List.head?_append_of_ne_nil _ hname.ne_nil]
      exact fun c hc ↦ hname.isBlank_of_mem (List.mem_of_mem_head? hc)
    have hlast : ∀ c ∈ name.toList.reverse.head?, isBlank c = false := fun c hc ↦
      hname.isBlank_of_mem (List.mem_reverse.mp (List.mem_of_mem_head? hc))
    rw [stripBlanks, dropWhile_isBlank hfront hhead, List.reverse_append,
      dropWhile_isBlank (fun c hc ↦ hback c (List.mem_reverse.mp hc)) hlast, List.reverse_reverse]

theorem ne_nil : cs ≠ [] := by
  cases h with
  | mk _ hname _ =>
    exact List.append_ne_nil_of_right_ne_nil _ (List.append_ne_nil_of_left_ne_nil hname.ne_nil _)

theorem colon_notMem : ':' ∉ cs := by
  cases h with
  | mk hfront hname hback =>
    have hblank {gap : List Char} (hgap : ∀ c ∈ gap, isBlank c = true) : ':' ∉ gap := fun hmem ↦
      absurd (hgap _ hmem) (by decide)
    rw [List.mem_append, List.mem_append, not_or, not_or]
    exact ⟨hblank hfront, hname.colon_notMem, hblank hback⟩

end IsSpaced

/-! ## Paths -/

/-- The characters are a path of the given names, with blanks where tokens meet. -/
inductive IsPathText : List String → List Char → Prop
  | first {name : String} {cs : List Char} (h : IsSpaced name cs) : IsPathText [name] cs
  /-- Colons may stand in front of the first name. -/
  | rooted {name : String} {gap cs : List Char} (hgap : ∀ c ∈ gap, isBlank c = true)
      (h : IsSpaced name cs) : IsPathText [name] (gap ++ ':' :: ':' :: cs)
  | segment {names : List String} {name : String} {cs ds : List Char} (hfront : IsPathText names cs)
      (h : IsSpaced name ds) : IsPathText (names ++ [name]) (cs ++ ':' :: ':' :: ds)

/-- The segments in characters without blanks. -/
def segmentsIn (cs : List Char) : List String :=
  ((splitColons cs).filter fun p ↦ !p.isEmpty).map String.ofList

theorem segmentsIn_append {cs : List Char} (h : EndsFirm cs) (ds : List Char) :
    segmentsIn (cs ++ ':' :: ':' :: ds) = segmentsIn cs ++ segmentsIn ds := by
  rw [segmentsIn, splitColons_append_colons h, List.filter_append, List.map_append]
  rfl

theorem segmentsIn_name {name : String} (h : IsPathName name) :
    segmentsIn name.toList = [name] := by
  rw [segmentsIn, splitColons_of_notMem h.colon_notMem,
    List.filter_cons_of_pos (by simpa using h.ne_nil)]
  simp

theorem removeBlanks_colons (cs ds : List Char) :
    removeBlanks (cs ++ ':' :: ':' :: ds) = removeBlanks cs ++ ':' :: ':' :: removeBlanks ds := by
  have hcolon : isBlank ':' = false := by decide
  have hcolons : ∀ c ∈ [':', ':'], isBlank c = false := by simp [hcolon]
  have hself := removeBlanks_append [':', ':'] ds
  rw [removeBlanks_eq_self hcolons] at hself
  rw [removeBlanks_append]
  exact congrArg (removeBlanks cs ++ ·) hself

namespace IsPathText

variable {names : List String}

/-- The names of a path are told from its characters without blanks, of which the last is no
colon. -/
theorem segmentsIn_removeBlanks {cs : List Char} (h : IsPathText names cs) :
    segmentsIn (removeBlanks cs) = names ∧ EndsFirm (removeBlanks cs) := by
  have hends {name : String} (hname : IsPathName name) (cs : List Char) :
      EndsFirm (cs ++ name.toList) := endsFirm_append hname.ne_nil hname.colon_notMem
  induction h with
  | @first name cs h =>
    rw [h.removeBlanks_eq]
    exact ⟨segmentsIn_name h.isPathName, hends h.isPathName []⟩
  | @rooted name gap cs hgap h =>
    rw [removeBlanks_colons, removeBlanks_eq_nil hgap, h.removeBlanks_eq,
      segmentsIn_append endsFirm_nil, segmentsIn_name h.isPathName]
    exact ⟨rfl, hends h.isPathName [':', ':']⟩
  | @segment names name cs ds _ h ih =>
    rw [removeBlanks_colons, h.removeBlanks_eq, segmentsIn_append ih.2, ih.1,
      segmentsIn_name h.isPathName]
    refine ⟨rfl, ?_⟩
    rw [List.append_cons, List.append_cons]
    exact hends h.isPathName _

/-- What stands behind the last colons of a path is its last name, with blanks around it. -/
theorem isSpaced_lastPart {cs : List Char} (h : IsPathText names cs) :
    (∃ name, names.getLast? = some name ∧ IsSpaced name (lastPart cs)) ∧ EndsFirm cs := by
  have hlast {name : String} {cs ds : List Char} (hcs : EndsFirm cs) (h : IsSpaced name ds) :
      lastPart (cs ++ ':' :: ':' :: ds) = ds := by
    rw [lastPart, splitColons_append_colons hcs, splitColons_of_notMem h.colon_notMem,
      List.getLast?_concat]
    rfl
  have hends {name : String} {ds : List Char} (h : IsSpaced name ds) (cs : List Char) :
      EndsFirm (cs ++ ':' :: ':' :: ds) := by
    rw [List.append_cons, List.append_cons]
    exact endsFirm_append h.ne_nil h.colon_notMem
  induction h with
  | @first name cs h =>
    have hcs : lastPart cs = cs := by
      rw [lastPart, splitColons_of_notMem h.colon_notMem]
      rfl
    exact ⟨⟨name, rfl, hcs.symm ▸ h⟩, @endsFirm_append [] cs h.ne_nil h.colon_notMem⟩
  | @rooted name gap cs hgap h =>
    have hfirm : EndsFirm gap := fun hcolon ↦
      absurd (hgap _ (List.mem_of_getLast? hcolon)) (by decide)
    exact ⟨⟨name, rfl, (hlast hfirm h).symm ▸ h⟩, hends h gap⟩
  | @segment names name cs ds _ h ih =>
    exact ⟨⟨name, List.getLast?_concat .., (hlast ih.2 h).symm ▸ h⟩, hends h cs⟩

end IsPathText

/-- **The segments of a path are its names.** -/
theorem segmentsOf_of_isPathText {names : List String} {text : String}
    (h : IsPathText names text.toList) : segmentsOf text = names :=
  h.segmentsIn_removeBlanks.1

/-- **The name that a path renames is its last one.** -/
theorem originalName_of_isPathText {names : List String} {text : String}
    (h : IsPathText names text.toList) : names.getLast? = some (Alias.originalName text) := by
  obtain ⟨⟨name, hname, hspaced⟩, -⟩ := h.isSpaced_lastPart
  rw [Alias.originalName, hspaced.stripBlanks_eq, String.ofList_toList, hname]

end Rust
end NodeSchema
