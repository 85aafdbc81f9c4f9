import Mathlib.Data.List.Basic
import NodeSchema.Spelling.File

/-!
# Delimiters that match

Lexemes are balanced if every opening delimiter among them has its closing one, properly nested
(`Balanced`).  The stack of `closingFrom` is a device for finding the end of what is balanced:

* `closingFrom_append` — what is balanced is passed over;
* `exists_balanced_of_closingFrom` — what was passed over up to the delimiter that was due is
  balanced.

So `File.closing` finds the end of a group exactly if the group has one (`File.closing_eq_ok_iff`).
Strings, characters and comments hold no delimiters: a delimiter is a lexeme of its own
(`File.isLexed_ofText`).
-/

set_option autoImplicit false

namespace NodeSchema
namespace Spelling

/-! ## Delimiters -/

namespace Lexeme

/-- The lexeme opens a group, which the given text closes. -/
def Opens (l : Lexeme) (due : String) : Prop := l.kind = .punct ∧ closerOf l.text = some due

/-- The lexeme closes a group that the given text is due to close. -/
def Closes (l : Lexeme) (due : String) : Prop := l.kind = .punct ∧ l.text = due

/-- The lexeme is no delimiter. -/
def IsPlain (l : Lexeme) : Prop :=
  l.kind = .punct → closerOf l.text = none ∧ isCloser l.text = false

end Lexeme

theorem closerOf_eq_some {opener due : String} (h : closerOf opener = some due) :
    (opener = "(" ∧ due = ")") ∨ (opener = "[" ∧ due = "]") ∨
      (opener = "\x7b" ∧ due = "\x7d") := by
  rw [closerOf] at h
  split at h
  · next ho => exact .inl ⟨ho, (Option.some.inj h).symm⟩
  · split at h
    · next ho => exact .inr (.inl ⟨ho, (Option.some.inj h).symm⟩)
    · split at h
      · next ho => exact .inr (.inr ⟨ho, (Option.some.inj h).symm⟩)
      · cases h

/-- What closes a group is a closing delimiter, and no opening one. -/
theorem isCloser_of_closerOf {opener due : String} (h : closerOf opener = some due) :
    isCloser due = true ∧ closerOf due = none := by
  rcases closerOf_eq_some h with ⟨-, rfl⟩ | ⟨-, rfl⟩ | ⟨-, rfl⟩ <;> decide

/-! ## Balanced lexemes -/

/-- Every delimiter has its counterpart, properly nested. -/
inductive Balanced : List Lexeme → Prop
  | nil : Balanced []
  | plain {l : Lexeme} {ls : List Lexeme} (hl : l.IsPlain) (hls : Balanced ls) : Balanced (l :: ls)
  | group {o c : Lexeme} {due : String} {body rest : List Lexeme} (ho : o.Opens due)
      (hbody : Balanced body) (hc : c.Closes due) (hrest : Balanced rest) :
      Balanced (o :: (body ++ c :: rest))

section Closing

variable {stack : List String} {due : String} {index : Nat} {l : Lexeme} {ls : List Lexeme}

/-! ### One step of the search -/

theorem closingFrom_plain (hl : l.IsPlain) :
    closingFrom stack index (l :: ls) = closingFrom stack (index + 1) ls := by
  rw [closingFrom.eq_def]
  dsimp only
  split
  · next hkind =>
    obtain ⟨hopener, hcloser⟩ := hl hkind
    rw [hopener, hcloser]
    rfl
  · rfl

theorem closingFrom_opener (hl : l.Opens due) :
    closingFrom stack index (l :: ls) = closingFrom (due :: stack) (index + 1) ls := by
  rw [closingFrom.eq_def]
  dsimp only
  rw [if_pos hl.1, hl.2]

theorem closingFrom_closer {opener : String} (hdue : closerOf opener = some due)
    (hl : l.Closes due) :
    closingFrom (due :: stack) index (l :: ls) =
      match stack with
      | [] => .ok index
      | _ :: _ => closingFrom stack (index + 1) ls := by
  obtain ⟨hcloser, hnone⟩ := isCloser_of_closerOf hdue
  rw [closingFrom.eq_def]
  dsimp only
  rw [if_pos hl.1, hl.2, hnone]
  dsimp only
  rw [if_pos hcloser]
  cases stack with
  | nil => exact if_pos rfl
  | cons => exact if_pos rfl

/-! ### Balanced lexemes are passed over -/

theorem closingFrom_append {body : List Lexeme} (h : Balanced body) (due : String)
    (stack : List String) (index : Nat) (rest : List Lexeme) :
    closingFrom (due :: stack) index (body ++ rest) =
      closingFrom (due :: stack) (index + body.length) rest := by
  induction h generalizing due stack index rest with
  | nil => rfl
  | plain hl _ ih =>
    rw [List.cons_append, closingFrom_plain hl, ih, List.length_cons]
    congr 1
    omega
  | group ho _ hc _ ihbody ihrest =>
    rw [List.cons_append, closingFrom_opener ho, List.append_assoc, ihbody, List.cons_append,
      closingFrom_closer ho.2 hc]
    dsimp only
    rw [ihrest]
    congr 1
    simp only [List.length_cons, List.length_append]
    omega

/-- **The search finds the end of a group.** -/
theorem closingFrom_eq_ok {opener : String} (hdue : closerOf opener = some due)
    {body rest : List Lexeme} {c : Lexeme} (hbody : Balanced body) (hc : c.Closes due)
    (index : Nat) : closingFrom [due] index (body ++ c :: rest) = .ok (index + body.length) := by
  rw [closingFrom_append hbody, closingFrom_closer hdue hc]

/-! ### What was passed over is balanced -/

/-- **What was passed over up to the delimiter that was due is balanced.** -/
theorem exists_balanced_of_closingFrom {opener : String} (hdue : closerOf opener = some due)
    {r : Nat} (h : closingFrom (due :: stack) index ls = .ok r) :
    ∃ body c rest, ls = body ++ c :: rest ∧ Balanced body ∧ c.Closes due ∧
      match stack with
      | [] => r = index + body.length
      | _ :: _ => closingFrom stack (index + body.length + 1) rest = .ok r := by
  -- A group inside is passed over by two appeals to shorter lists: its body and what follows.
  induction hn : ls.length using Nat.strongRecOn generalizing ls due stack index opener with
  | ind n ih =>
    subst hn
    cases ls with
    | nil => cases h
    | cons l ls =>
      by_cases hplain : l.IsPlain
      · rw [closingFrom_plain hplain] at h
        obtain ⟨body, c, rest, rfl, hbody, hc, hrest⟩ := ih _ (by simp) hdue h rfl
        refine ⟨l :: body, c, rest, rfl, .plain hplain hbody, hc, ?_⟩
        rw [List.length_cons, ← Nat.add_assoc, Nat.add_right_comm]
        exact hrest
      · obtain ⟨hkind, hdelimiter⟩ := Classical.not_imp.mp hplain
        cases hopens : closerOf l.text with
        | some inner =>
          have hl : l.Opens inner := ⟨hkind, hopens⟩
          rw [closingFrom_opener hl] at h
          obtain ⟨body, c, rest, rfl, hbody, hc, hrest⟩ := ih _ (by simp) hopens h rfl
          obtain ⟨body', c', rest', rfl, hbody', hc', hrest'⟩ :=
            ih _ (by simp only [List.length_cons, List.length_append]; omega) hdue hrest rfl
          refine ⟨l :: (body ++ c :: body'), c', rest', by simp, .group hl hbody hc hbody', hc', ?_⟩
          have hlength : index + (l :: (body ++ c :: body')).length =
              index + 1 + body.length + 1 + body'.length := by
            simp only [List.length_cons, List.length_append]
            omega
          rw [hlength]
          exact hrest'
        | none =>
          have hcloser : isCloser l.text = true := by simpa [hopens] using hdelimiter
          rw [closingFrom.eq_def] at h
          dsimp only at h
          rw [if_pos hkind, hopens] at h
          dsimp only at h
          rw [if_pos hcloser] at h
          split at h
          · next htext =>
            refine ⟨[], l, ls, rfl, .nil, ⟨hkind, htext⟩, ?_⟩
            cases stack with
            | nil => exact (Except.ok.inj h).symm
            | cons => exact h
          · cases h

end Closing

/-! ### Parts of balanced lexemes -/

/-- The group that begins balanced lexemes ends in one way only. -/
theorem Balanced.group_unique {due : String} {o c c' : Lexeme} {body body' rest rest' : List Lexeme}
    (ho : o.Opens due) (hbody : Balanced body) (hc : c.Closes due) (hbody' : Balanced body')
    (hc' : c'.Closes due) (h : body ++ c :: rest = body' ++ c' :: rest') :
    body = body' ∧ c = c' ∧ rest = rest' := by
  have hend : closingFrom [due] 0 (body ++ c :: rest) = _ := closingFrom_eq_ok ho.2 hbody hc 0
  rw [h, closingFrom_eq_ok ho.2 hbody' hc'] at hend
  obtain ⟨hbodies, hrests⟩ := List.append_inj h (by have := Except.ok.inj hend; omega)
  exact ⟨hbodies, List.cons.inj hrests⟩

theorem Lexeme.Opens.not_isPlain {l : Lexeme} {due : String} (h : l.Opens due) : ¬ l.IsPlain := by
  intro hplain
  have hnone := (hplain h.1).1
  rw [h.2] at hnone
  cases hnone

theorem Lexeme.Closes.not_opens {l : Lexeme} {opener due due' : String}
    (hdue : closerOf opener = some due) (h : l.Closes due) : ¬ l.Opens due' := by
  intro hopens
  have hnone := (isCloser_of_closerOf hdue).2
  rw [← h.2, hopens.2] at hnone
  cases hnone

theorem Lexeme.Opens.unique {l : Lexeme} {due due' : String} (h : l.Opens due)
    (h' : l.Opens due') : due = due' := Option.some.inj (h.2.symm.trans h'.2)

/-- Balanced lexemes that an opening delimiter begins are a group and what follows it. -/
theorem Balanced.exists_group {o : Lexeme} {due : String} {ls : List Lexeme} (ho : o.Opens due)
    (h : Balanced (o :: ls)) :
    ∃ body c rest, ls = body ++ c :: rest ∧ Balanced body ∧ c.Closes due ∧ Balanced rest := by
  cases h with
  | plain hl => exact absurd hl ho.not_isPlain
  | group ho' hbody hc hrest => exact ⟨_, _, _, rfl, hbody, ho.unique ho' ▸ hc, hrest⟩

theorem Balanced.tail_of_isPlain {l : Lexeme} {ls : List Lexeme} (hl : l.IsPlain)
    (h : Balanced (l :: ls)) : Balanced ls := by
  cases h with
  | plain _ hls => exact hls
  | group ho => exact absurd hl ho.not_isPlain

/-- **Every group that begins among balanced lexemes ends among them.** -/
theorem Balanced.exists_group_of_mem {before after : List Lexeme} {o : Lexeme} {due : String}
    (ho : o.Opens due) (h : Balanced (before ++ o :: after)) :
    ∃ body c rest, after = body ++ c :: rest ∧ Balanced body ∧ c.Closes due := by
  generalize hls : before ++ o :: after = ls at h
  induction h generalizing before after with
  | nil => simp at hls
  | plain hl hrest ih =>
    cases before with
    | nil =>
      obtain ⟨rfl, rfl⟩ := List.cons.inj hls
      exact absurd hl ho.not_isPlain
    | cons => exact ih (List.cons.inj hls).2
  | group ho' hbody hc hrest ihbody ihrest =>
    cases before with
    | nil =>
      obtain ⟨rfl, rfl⟩ := List.cons.inj hls
      exact ⟨_, _, _, rfl, hbody, ho.unique ho' ▸ hc⟩
    | cons o' before =>
      obtain ⟨-, htail⟩ := List.cons.inj hls
      rcases List.append_eq_append_iff.mp htail with ⟨inside, rfl, hafter⟩ | ⟨inside, rfl, hafter⟩
      · cases inside with
        | nil =>
          obtain ⟨rfl, -⟩ := List.cons.inj hafter
          exact absurd ho (hc.not_opens ho'.2)
        | cons o'' inside =>
          obtain ⟨rfl, rfl⟩ := List.cons.inj hafter
          obtain ⟨body, c, rest, rfl, hinner⟩ := ihbody rfl
          exact ⟨body, c, _, List.append_assoc body (c :: rest) _, hinner⟩
      · cases inside with
        | nil =>
          obtain ⟨rfl, -⟩ := List.cons.inj hafter
          exact absurd ho (hc.not_opens ho'.2)
        | cons c' inside =>
          obtain ⟨rfl, rfl⟩ := List.cons.inj hafter
          exact ihrest rfl

/-! ## Delimiters are lexemes of their own -/

/-- The characters of delimiters. -/
def isDelimiter (c : Char) : Bool := ['(', ')', '[', ']', '\x7b', '\x7d'].contains c

theorem measure_of_isDelimiter {c : Char} (h : isDelimiter c = true) (rest : List Char) :
    measure c rest = (.punct, 1) := by
  simp only [isDelimiter, List.contains_cons, List.contains_nil, Bool.or_false, Bool.or_eq_true,
    beq_iff_eq] at h
  rcases h with rfl | rfl | rfl | rfl | rfl | rfl <;> rfl

/-- Every piece begins with the character that it is measured at. -/
theorem exists_measure_of_mem_scanAfter {skip offset : Nat} {cs : List Char} {l : Lexeme}
    (h : l ∈ scanAfter skip offset cs) :
    ∃ c rest, l.kind = (measure c rest).1 ∧
      l.text = String.ofList (c :: rest.take ((measure c rest).2 - 1)) := by
  induction cs generalizing skip offset with
  | nil => simp [scanAfter] at h
  | cons c cs ih =>
    cases skip with
    | succ skip => exact ih h
    | zero =>
      rcases List.mem_cons.mp h with rfl | h
      · exact ⟨c, cs, rfl, rfl⟩
      · exact ih h

namespace File

/-- Delimiters are lexemes of their own class. -/
def IsLexed (f : File) : Prop :=
  ∀ l ∈ f.lexemes, (closerOf l.text).isSome ∨ isCloser l.text = true → l.kind = .punct

theorem isLexed_ofText (path : String) (text : List Char) : (ofText path text).IsLexed := by
  intro l hl hdelimiter
  obtain ⟨c, rest, hkind, htext⟩ := exists_measure_of_mem_scanAfter (List.mem_filter.mp hl).1
  have hchar : ∃ d, isDelimiter d = true ∧ l.text = String.ofList [d] := by
    rcases hdelimiter with hopener | hcloser
    · obtain ⟨due, hdue⟩ := Option.isSome_iff_exists.mp hopener
      rcases closerOf_eq_some hdue with ⟨h, -⟩ | ⟨h, -⟩ | ⟨h, -⟩
      · exact ⟨'(', rfl, h⟩
      · exact ⟨'[', rfl, h⟩
      · exact ⟨'\x7b', rfl, h⟩
    · simp only [isCloser, Bool.or_eq_true, decide_eq_true_eq] at hcloser
      rcases hcloser with (h | h) | h
      · exact ⟨')', rfl, h⟩
      · exact ⟨']', rfl, h⟩
      · exact ⟨'\x7d', rfl, h⟩
  obtain ⟨d, hd, hsingle⟩ := hchar
  have hc : c = d := by
    have hlist := congrArg String.toList (htext.symm.trans hsingle)
    rw [String.toList_ofList, String.toList_ofList] at hlist
    exact (List.cons.inj hlist).1
  rw [hkind, hc, measure_of_isDelimiter hd]

/-! ## The end of a group -/

variable {f : File}

/-- **The end of a group is found iff the group has one**: the delimiters between are balanced. -/
theorem closing_eq_ok_iff {start r : Nat} :
    f.closing start = .ok r ↔
      ∃ o due body c rest, f.lexemes.drop start = o :: (body ++ c :: rest) ∧
        closerOf o.text = some due ∧ Balanced body ∧ c.Closes due ∧
          r = start + 1 + body.length := by
  have htail {o : Lexeme} {ls : List Lexeme} (h : f.lexemes.drop start = o :: ls) :
      f.lexemes[start]? = some o ∧ f.lexemes.drop (start + 1) = ls := by
    refine ⟨by rw [← List.head?_drop, h, List.head?_cons], ?_⟩
    rw [← List.tail_drop, h, List.tail_cons]
  constructor
  · intro h
    rw [closing] at h
    split at h
    · cases h
    · next due hdue =>
      obtain ⟨o, ho, hdue⟩ := Option.bind_eq_some_iff.mp hdue
      split at h
      · next r' hclosing =>
        cases h
        obtain ⟨body, c, rest, hrest, hbody, hc, hr⟩ := exists_balanced_of_closingFrom hdue hclosing
        obtain ⟨hlt, rfl⟩ := List.getElem?_eq_some_iff.mp ho
        exact ⟨_, due, body, c, rest, by rw [List.drop_eq_getElem_cons hlt, hrest], hdue, hbody,
          hc, hr⟩
      · cases h
      · cases h
  · rintro ⟨o, due, body, c, rest, hdrop, hdue, hbody, hc, rfl⟩
    obtain ⟨ho, hrest⟩ := htail hdrop
    rw [closing, ho, Option.bind_some, hdue]
    dsimp only
    rw [hrest, closingFrom_eq_ok hdue hbody hc]

end File
end Spelling
end NodeSchema
