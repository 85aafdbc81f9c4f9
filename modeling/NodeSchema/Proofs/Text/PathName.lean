import NodeSchema.Text.PathName

/-!
# The names of a path

A name begins with an ASCII letter or the underscore and goes on with word characters (`IsName`).
What follows the last `::` of a path is a name (`isName_lastPart`).  The one exception in what
`isPath` accepts is a line feed at the end, which it passes over.
-/

set_option autoImplicit false

namespace NodeSchema
namespace Text

/-- The characters are one name. -/
inductive IsName : List Char → Prop
  | mk {c : Char} {cs : List Char} (hc : isNameStart c = true)
      (hcs : ∀ d ∈ cs, isWordChar d = true) : IsName (c :: cs)

/-- A character that may stand in a path. -/
def IsPathChar (c : Char) : Prop := isWordChar c = true ∨ c = ':'

theorem isWordChar_of_isNameStart {c : Char} (h : isNameStart c = true) : isWordChar c = true := by
  rw [isNameStart, Bool.or_eq_true] at h
  rcases h with halpha | hunderscore
  · exact isWordChar_of_isAlphanum (by rw [Char.isAlphanum, halpha, Bool.true_or])
  · rw [of_decide_eq_true hunderscore]
    decide

theorem IsName.append {cs ds : List Char} (h : IsName cs) (hds : ∀ d ∈ ds, isWordChar d = true) :
    IsName (cs ++ ds) := by
  cases h with
  | mk hc hcs =>
    refine .mk hc fun d hd ↦ ?_
    rcases List.mem_append.mp hd with hd | hd
    · exact hcs d hd
    · exact hds d hd

/-! ## The characters of a path -/

theorem isPathTail_colons (c : Char) (rest : List Char) :
    isPathTail (':' :: ':' :: c :: rest) = (isNameStart c && isPathTail rest) := rfl

theorem isPathTail_cons {c : Char} {rest : List Char}
    (h : ∀ d ds, c = ':' → rest = ':' :: d :: ds → False) :
    isPathTail (c :: rest) = (isWordChar c && isPathTail rest) := by
  rw [isPathTail]
  exact h

theorem isPathChar_of_isPathTail {cs : List Char} (h : isPathTail cs = true) :
    ∀ c ∈ cs, IsPathChar c := by
  induction cs using isPathTail.induct with
  | case1 => exact fun _ hc ↦ absurd hc List.not_mem_nil
  | case2 d rest ih =>
    rw [isPathTail_colons, Bool.and_eq_true] at h
    simp only [List.forall_mem_cons]
    exact ⟨.inr rfl, .inr rfl, .inl (isWordChar_of_isNameStart h.1), ih h.2⟩
  | case3 d rest hcolons ih =>
    rw [isPathTail_cons hcolons, Bool.and_eq_true] at h
    exact List.forall_mem_cons.mpr ⟨.inl h.1, ih h.2⟩

theorem isPathChar_of_isPathFrom {cs : List Char} (h : isPathFrom cs = true) :
    ∀ c ∈ cs, IsPathChar c := by
  cases cs with
  | nil => cases h
  | cons c rest =>
    rw [isPathFrom, Bool.and_eq_true] at h
    exact List.forall_mem_cons.mpr
      ⟨.inl (isWordChar_of_isNameStart h.1), isPathChar_of_isPathTail h.2⟩

theorem isPathChar_of_match_isPathFrom {cs : List Char} (h : (match cs with
      | ':' :: ':' :: rest => isPathFrom rest
      | _ => isPathFrom cs) = true) : ∀ c ∈ cs, IsPathChar c := by
  split at h
  · simp only [List.forall_mem_cons]
    exact ⟨.inr rfl, .inr rfl, isPathChar_of_isPathFrom h⟩
  · exact isPathChar_of_isPathFrom h

/-- A path holds no characters but those of its names, colons, and a line feed at the end. -/
theorem isPathChar_of_isPath {path : String} (h : isPath path = true) :
    ∀ c ∈ path.toList, IsPathChar c ∨ c = '\n' := by
  rw [isPath] at h
  by_cases hlast : path.toList.getLast? = some '\n'
  · rw [if_pos hlast] at h
    obtain ⟨front, hfront⟩ := List.getLast?_eq_some_iff.mp hlast
    rw [hfront, List.dropLast_concat] at h
    rw [hfront]
    intro c hc
    rcases List.mem_append.mp hc with hc | hc
    · exact .inl (isPathChar_of_match_isPathFrom h c hc)
    · exact .inr (List.mem_singleton.mp hc)
  · rw [if_neg hlast] at h
    exact fun c hc ↦ .inl (isPathChar_of_match_isPathFrom h c hc)

/-! ## The last name -/

theorem ne_colon_of_isWordChar {c : Char} (h : isWordChar c = true) : c ≠ ':' := by
  rintro rfl
  exact absurd h (by decide)

theorem splitColonsFrom_of_ne {part rest : List Char} {c : Char} (h : c ≠ ':') :
    splitColonsFrom part (c :: rest) = splitColonsFrom (c :: part) rest := by
  rw [splitColonsFrom]
  exact fun _ hc _ ↦ h hc

theorem splitColonsFrom_cons {part rest : List Char} {c : Char} (h : isWordChar c = true) :
    splitColonsFrom part (c :: rest) = splitColonsFrom (c :: part) rest :=
  splitColonsFrom_of_ne (ne_colon_of_isWordChar h)

theorem splitColonsFrom_append {part u : List Char} (hu : ':' ∉ u) (v : List Char) :
    splitColonsFrom part (u ++ v) = splitColonsFrom (u.reverse ++ part) v := by
  induction u generalizing part with
  | nil => rfl
  | cons c u ih =>
    rw [List.cons_append, splitColonsFrom_of_ne (List.ne_of_not_mem_cons hu).symm,
      ih (List.not_mem_of_not_mem_cons hu), List.reverse_cons, List.append_assoc]
    rfl

/-- Characters are cut where parts were put together. -/
theorem splitColons_flatMap {u : List Char} {vs : List (List Char)} (hu : ':' ∉ u)
    (hvs : ∀ v ∈ vs, ':' ∉ v) :
    splitColons (u ++ vs.flatMap fun v ↦ ':' :: ':' :: v) = u :: vs := by
  rw [splitColons, splitColonsFrom_append hu, List.append_nil]
  induction vs generalizing u with
  | nil => rw [List.flatMap_nil, splitColonsFrom, List.reverse_reverse]
  | cons v vs ih =>
    obtain ⟨hv, hvs⟩ := List.forall_mem_cons.mp hvs
    rw [List.flatMap_cons, List.cons_append, List.cons_append, splitColonsFrom,
      List.reverse_reverse, splitColonsFrom_append hv, List.append_nil, ih hv hvs]

theorem isName_reverse_singleton {c : Char} (h : isNameStart c = true) :
    IsName [c].reverse := .mk h (by simp)

theorem getLast?_splitColonsFrom {part cs : List Char} (hpart : IsName part.reverse)
    (h : isPathTail cs = true) :
    ∃ name, (splitColonsFrom part cs).getLast? = some name ∧ IsName name := by
  -- What follows the cut is a name from its first character on, as a path has one there.
  induction cs using isPathTail.induct generalizing part with
  | case1 => exact ⟨part.reverse, rfl, hpart⟩
  | case2 c rest ih =>
    rw [isPathTail_colons, Bool.and_eq_true] at h
    obtain ⟨name, hname, hisName⟩ := ih (isName_reverse_singleton h.1) h.2
    refine ⟨name, ?_, hisName⟩
    rw [splitColonsFrom, splitColonsFrom_cons (isWordChar_of_isNameStart h.1), List.getLast?_cons,
      hname]
    rfl
  | case3 c rest hcolons ih =>
    rw [isPathTail_cons hcolons, Bool.and_eq_true] at h
    rw [splitColonsFrom_cons h.1]
    refine ih ?_ h.2
    rw [List.reverse_cons]
    exact hpart.append (by simpa using h.1)

theorem isName_lastPart_of_isPathFrom {cs : List Char} (h : isPathFrom cs = true) :
    IsName (lastPart cs) := by
  cases cs with
  | nil => cases h
  | cons c rest =>
    rw [isPathFrom, Bool.and_eq_true] at h
    obtain ⟨name, hname, hisName⟩ :=
      getLast?_splitColonsFrom (isName_reverse_singleton h.1) h.2
    rwa [lastPart, splitColons, splitColonsFrom_cons (isWordChar_of_isNameStart h.1), hname]

/-- **What follows the last `::` of a path is a name.** -/
theorem isName_lastPart {path : String} (h : isPath path = true) (hline : '\n' ∉ path.toList) :
    IsName (lastPart path.toList) := by
  have hlast : path.toList.getLast? ≠ some '\n' := fun hlast ↦
    hline (List.mem_of_getLast? hlast)
  rw [isPath] at h
  rw [if_neg hlast] at h
  split at h
  · next rest hpath =>
    have hname := isName_lastPart_of_isPathFrom h
    rw [lastPart, splitColons] at hname
    rw [hpath, lastPart, splitColons, splitColonsFrom, List.getLast?_cons]
    cases hsplit : (splitColonsFrom [] rest).getLast? with
    | none => rwa [hsplit] at hname
    | some name => rwa [hsplit] at hname
  · exact isName_lastPart_of_isPathFrom h

/-! ## A name in a crate -/

theorem isPathTail_append {u v : List Char} (h : ∀ c ∈ u, isWordChar c = true) :
    isPathTail (u ++ v) = isPathTail v := by
  induction u with
  | nil => rfl
  | cons c u ih =>
    obtain ⟨hc, hu⟩ := List.forall_mem_cons.mp h
    rw [List.cons_append, isPathTail_cons fun _ _ heq _ ↦ ne_colon_of_isWordChar hc heq, hc, ih hu]
    exact Bool.true_and _

theorem splitColonsFrom_of_isWordChar {part cs : List Char} (h : ∀ c ∈ cs, isWordChar c = true) :
    splitColonsFrom part cs = [part.reverse ++ cs] := by
  induction cs generalizing part with
  | nil => rw [splitColonsFrom, List.append_nil]
  | cons c cs ih =>
    obtain ⟨hc, hcs⟩ := List.forall_mem_cons.mp h
    rw [splitColonsFrom_cons hc, ih hcs, List.reverse_cons, List.append_assoc]
    rfl

/-- **A name in the crate is a path, of which it is the last part.** -/
theorem isPath_crate {name : List Char} (h : IsName name) :
    isPath (String.ofList ("crate::".toList ++ name)) = true ∧
      lastPart ("crate::".toList ++ name) = name := by
  cases h with
  | @mk c cs hc hcs =>
    have hword : ∀ d ∈ c :: cs, isWordChar d = true :=
      List.forall_mem_cons.mpr ⟨isWordChar_of_isNameStart hc, hcs⟩
    have hline : ("crate::".toList ++ (c :: cs)).getLast? ≠ some '\n' := by
      intro hlast
      rw [List.getLast?_append, List.getLast?_eq_some_getLast (List.cons_ne_nil c cs),
        Option.some_or] at hlast
      have hmem := List.getLast_mem (List.cons_ne_nil c cs)
      rw [Option.some.inj hlast] at hmem
      exact absurd (hword _ hmem) (by decide)
    have hcrate : ∀ d ∈ "rate".toList, isWordChar d = true :=
      List.all_eq_true.mp (by decide)
    constructor
    · rw [isPath, String.toList_ofList, if_neg hline]
      have htail : isPathTail ("rate".toList ++ ':' :: ':' :: c :: cs) = true := by
        rw [isPathTail_append hcrate, isPathTail_colons, hc, ← List.append_nil cs,
          isPathTail_append hcs]
        rfl
      show (isNameStart 'c' && isPathTail ("rate".toList ++ ':' :: ':' :: c :: cs)) = true
      rw [htail]
      rfl
    · have hsplit : splitColonsFrom [] ("crate::".toList ++ c :: cs) =
          "crate".toList :: splitColonsFrom [] (c :: cs) := rfl
      rw [lastPart, splitColons, hsplit, splitColonsFrom_of_isWordChar hword]
      rfl

end Text
end NodeSchema
