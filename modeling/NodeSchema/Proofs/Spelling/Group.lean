import Mathlib.Data.List.Forall2
import NodeSchema.Proofs.Spelling.Balance

/-!
# Groups that end and groups that do not

The search for the end of a group goes over the lexemes with a stack of the delimiters that are due.
`Pass` is one round of it that goes on, and `Passes` are rounds in a row.  No round leaves the stack
empty (`Passes.ne_nil`), and the stack holds what would close the groups that were left open
(`passes_iff`, where `LeavesOpen` says which groups these are).

The search passes over lexemes until it comes to the delimiter that closes the group, to a closing
delimiter that is not the innermost one due, or to the end of the lexemes (`ends_closingFrom`).  So
all that can come of it is known (`File.closing_outcome`), and what stands in strings, characters
and comments has no say in it (`closingFrom_congr`).
-/

set_option autoImplicit false

namespace NodeSchema
namespace Spelling

/-! ## Lexemes that leave groups open -/

theorem Balanced.append {ls ms : List Lexeme} (h : Balanced ls) (hms : Balanced ms) :
    Balanced (ls ++ ms) := by
  induction h with
  | nil => exact hms
  | plain hl _ ih => exact .plain hl ih
  | group ho hbody hc _ _ ih =>
    rw [List.cons_append, List.append_assoc, List.cons_append]
    exact .group ho hbody hc ih

/-- Every delimiter has its counterpart, properly nested, but for those that open a group which does
not end yet.  The closing delimiters of these are due, the innermost first. -/
inductive LeavesOpen : List Lexeme → List String → Prop
  | balanced {ls : List Lexeme} (h : Balanced ls) : LeavesOpen ls []
  | inside {ls body : List Lexeme} {o : Lexeme} {due : String} {opened : List String}
      (h : LeavesOpen ls opened) (ho : o.Opens due) (hbody : Balanced body) :
      LeavesOpen (ls ++ o :: body) (due :: opened)

namespace LeavesOpen

variable {ls ms : List Lexeme} {l : Lexeme} {due : String} {opened : List String}

theorem append (h : LeavesOpen ls opened) (hms : Balanced ms) : LeavesOpen (ls ++ ms) opened := by
  cases h with
  | balanced h => exact .balanced (h.append hms)
  | inside h ho hbody =>
    rw [List.append_assoc, List.cons_append]
    exact .inside h ho (hbody.append hms)

theorem concat_plain (h : LeavesOpen ls opened) (hl : l.IsPlain) : LeavesOpen (ls ++ [l]) opened :=
  h.append (.plain hl .nil)

theorem concat_closer (h : LeavesOpen ls (due :: opened)) (hl : l.Closes due) :
    LeavesOpen (ls ++ [l]) opened := by
  cases h with
  | inside h ho hbody =>
    rw [List.append_assoc, List.cons_append]
    exact h.append (.group ho hbody hl .nil)

end LeavesOpen

/-! ## Rounds of the search -/

/-- A closing delimiter. -/
def Lexeme.IsCloser (l : Lexeme) : Prop := l.kind = .punct ∧ isCloser l.text = true

/-- One round of the search that goes on: the stack before it, the lexeme passed over and the stack
after it.  A delimiter that is taken from the stack must leave others there. -/
inductive Pass : List String → Lexeme → List String → Prop
  | plain {stack : List String} {l : Lexeme} (hl : l.IsPlain) : Pass stack l stack
  | opener {stack : List String} {l : Lexeme} {due : String} (hl : l.Opens due) :
      Pass stack l (due :: stack)
  | closer {stack : List String} {l : Lexeme} {due : String} (hl : l.Closes due)
      (hdue : isCloser due = true) (hstack : stack ≠ []) : Pass (due :: stack) l stack

/-- Rounds in a row. -/
inductive Passes : List String → List Lexeme → List String → Prop
  | nil {stack : List String} : Passes stack [] stack
  | cons {stack stack' stack'' : List String} {l : Lexeme} {ls : List Lexeme}
      (h : Pass stack l stack') (hs : Passes stack' ls stack'') : Passes stack (l :: ls) stack''

theorem exists_closerOf_of_isCloser {text : String} (h : isCloser text = true) :
    ∃ opener, closerOf opener = some text := by
  simp only [isCloser, Bool.or_eq_true, decide_eq_true_eq] at h
  rcases h with (rfl | rfl) | rfl
  · exact ⟨"(", rfl⟩
  · exact ⟨"[", rfl⟩
  · exact ⟨"\x7b", rfl⟩

section Rounds

variable {stack stack' stack'' opened : List String} {due inner : String} {index : Nat}
  {l c : Lexeme} {ls ms before rest : List Lexeme}

/-! ### A round is one of the recursion -/

theorem Pass.closingFrom (h : Pass stack l stack') :
    closingFrom stack index (l :: ls) = closingFrom stack' (index + 1) ls := by
  cases h with
  | plain hl => exact closingFrom_plain hl
  | opener hl => exact closingFrom_opener hl
  | closer hl hdue hstack =>
    obtain ⟨opener, hopener⟩ := exists_closerOf_of_isCloser hdue
    rw [closingFrom_closer hopener hl]
    cases stack' with
    | nil => exact absurd rfl hstack
    | cons => rfl

theorem Passes.closingFrom (h : Passes stack ls stack') :
    closingFrom stack index (ls ++ rest) = closingFrom stack' (index + ls.length) rest := by
  induction h generalizing index with
  | nil => rfl
  | cons h _ ih =>
    rw [List.cons_append, h.closingFrom, ih, List.length_cons]
    congr 1
    omega

theorem Passes.append (h : Passes stack ls stack') (hms : Passes stack' ms stack'') :
    Passes stack (ls ++ ms) stack'' := by
  induction h with
  | nil => exact hms
  | cons h _ ih => exact .cons h (ih hms)

/-! ### The stack is never empty -/

theorem Pass.ne_nil (h : Pass stack l stack') (hstack : stack ≠ []) : stack' ≠ [] := by
  cases h with
  | plain => exact hstack
  | opener => exact List.cons_ne_nil _ _
  | closer _ _ hrest => exact hrest

/-- **The stack is never empty**, whatever the search has passed over. -/
theorem Passes.ne_nil (h : Passes stack ls stack') (hstack : stack ≠ []) : stack' ≠ [] := by
  induction h with
  | nil => exact hstack
  | cons h _ ih => exact ih (h.ne_nil hstack)

/-! ### The stack holds what is due -/

theorem Balanced.passes (h : Balanced ls) (hstack : stack ≠ []) : Passes stack ls stack := by
  induction h generalizing stack with
  | nil => exact .nil
  | plain hl _ ih => exact .cons (.plain hl) (ih hstack)
  | group ho _ hc _ ihbody ihrest =>
    refine .cons (.opener ho) ((ihbody (List.cons_ne_nil _ _)).append (.cons ?_ (ihrest hstack)))
    exact .closer hc (isCloser_of_closerOf ho.2).1 hstack

theorem LeavesOpen.passes (h : LeavesOpen ls opened) (hstack : stack ≠ []) :
    Passes stack ls (opened ++ stack) := by
  induction h with
  | balanced h => exact h.passes hstack
  | inside _ ho hbody ih =>
    exact ih.append (.cons (.opener ho) (hbody.passes (List.cons_ne_nil _ _)))

/-- One round of a search for `due` changes what is open as it changes the stack. -/
theorem Pass.leavesOpen (h : Pass (opened ++ [due]) l stack') (hbefore : LeavesOpen before opened) :
    ∃ opened', stack' = opened' ++ [due] ∧ LeavesOpen (before ++ [l]) opened' := by
  generalize hstack : opened ++ [due] = stack at h
  cases h with
  | plain hl => exact ⟨opened, hstack.symm, hbefore.concat_plain hl⟩
  | @opener _ _ inner hl => exact ⟨inner :: opened, by rw [← hstack]; rfl, .inside hbefore hl .nil⟩
  | closer hl _ hrest =>
    cases opened with
    | nil => exact absurd (List.cons.inj hstack).2.symm hrest
    | cons =>
      obtain ⟨rfl, rfl⟩ := List.cons.inj hstack
      exact ⟨_, rfl, hbefore.concat_closer hl⟩

theorem Passes.leavesOpen (h : Passes (opened ++ [due]) ls stack')
    (hbefore : LeavesOpen before opened) :
    ∃ opened', stack' = opened' ++ [due] ∧ LeavesOpen (before ++ ls) opened' := by
  generalize hstack : opened ++ [due] = stack at h
  induction h generalizing before opened with
  | nil => exact ⟨opened, hstack.symm, by rwa [List.append_nil]⟩
  | cons h _ ih =>
    rw [List.append_cons]
    obtain ⟨opened', rfl, hl⟩ := (hstack ▸ h).leavesOpen hbefore
    exact ih hl rfl

/-- **The stack holds what would close the groups left open.** -/
theorem passes_iff :
    Passes [due] ls stack ↔ ∃ opened, stack = opened ++ [due] ∧ LeavesOpen ls opened := by
  constructor
  · intro h
    have h : Passes ([] ++ [due]) ls stack := h
    exact h.leavesOpen (.balanced .nil)
  · rintro ⟨opened, rfl, h⟩
    exact h.passes (List.cons_ne_nil _ _)

/-! ### How the search ends -/

theorem closingFrom_mismatch (hc : c.IsCloser) (hne : c.text ≠ inner) :
    closingFrom (inner :: stack) index (c :: rest) = .error (some (index, c.text)) := by
  obtain ⟨opener, hopener⟩ := exists_closerOf_of_isCloser hc.2
  rw [closingFrom.eq_def]
  dsimp only
  rw [if_pos hc.1, (isCloser_of_closerOf hopener).2]
  dsimp only
  rw [if_pos hc.2, if_neg hne]

/-- What the next lexeme may be: the end of the group, a wrong end, or one to pass over. -/
theorem pass_cases (l : Lexeme) (inner : String) (outer : List String) :
    (∃ stack, Pass (inner :: outer) l stack) ∨ (outer = [] ∧ l.IsCloser ∧ l.Closes inner) ∨
      (l.IsCloser ∧ l.text ≠ inner) := by
  by_cases hplain : l.IsPlain
  · exact .inl ⟨_, .plain hplain⟩
  · obtain ⟨hkind, hdelimiter⟩ := Classical.not_imp.mp hplain
    cases hopens : closerOf l.text with
    | some due => exact .inl ⟨_, .opener ⟨hkind, hopens⟩⟩
    | none =>
      have hl : l.IsCloser := ⟨hkind, by simpa [hopens] using hdelimiter⟩
      by_cases htext : l.text = inner
      · cases outer with
        | nil => exact .inr (.inl ⟨rfl, hl, hkind, htext⟩)
        | cons =>
          exact .inl ⟨_, .closer ⟨hkind, htext⟩ (htext ▸ hl.2) (List.cons_ne_nil _ _)⟩
      · exact .inr (.inr ⟨hl, htext⟩)

/-- The search passes over lexemes up to one that ends it. -/
inductive Ends (stack : List String) (index : Nat) : List Lexeme →
    Except (Option (Nat × String)) Nat → Prop
  | found {passed rest : List Lexeme} {c : Lexeme} {due : String} (h : Passes stack passed [due])
      (hcloser : c.IsCloser) (hc : c.Closes due) :
      Ends stack index (passed ++ c :: rest) (.ok (index + passed.length))
  | mismatch {passed rest : List Lexeme} {c : Lexeme} {inner : String} {outer : List String}
      (h : Passes stack passed (inner :: outer)) (hc : c.IsCloser) (hne : c.text ≠ inner) :
      Ends stack index (passed ++ c :: rest) (.error (some (index + passed.length, c.text)))
  | unclosed {passed : List Lexeme} {stack' : List String} (h : Passes stack passed stack') :
      Ends stack index passed (.error none)

theorem Pass.ends {r : Except (Option (Nat × String)) Nat} (h : Pass stack l stack')
    (hends : Ends stack' (index + 1) ls r) : Ends stack index (l :: ls) r := by
  have hindex (n : Nat) : index + 1 + n = index + (n + 1) := by omega
  cases hends with
  | found hpassed hcloser hc => rw [hindex]; exact .found (.cons h hpassed) hcloser hc
  | mismatch hpassed hc hne => rw [hindex]; exact .mismatch (.cons h hpassed) hc hne
  | unclosed hpassed => exact .unclosed (.cons h hpassed)

/-- **The search ends in one of three ways.** -/
theorem ends_closingFrom (hstack : stack ≠ []) :
    Ends stack index ls (closingFrom stack index ls) := by
  induction ls generalizing stack index with
  | nil => exact .unclosed .nil
  | cons l ls ih =>
    cases stack with
    | nil => exact absurd rfl hstack
    | cons inner outer =>
      rcases pass_cases l inner outer with ⟨stack', h⟩ | ⟨rfl, hcloser, hl⟩ | ⟨hcloser, hne⟩
      · rw [h.closingFrom]
        exact h.ends (ih (h.ne_nil hstack))
      · obtain ⟨opener, hopener⟩ := exists_closerOf_of_isCloser hcloser.2
        rw [closingFrom_closer (hl.2 ▸ hopener) hl]
        exact .found .nil hcloser hl
      · rw [closingFrom_mismatch hcloser hne]
        exact .mismatch .nil hcloser hne

/-! ### What is no delimiter has no say -/

/-- The lexemes are the same as far as delimiters go. -/
def Lexeme.SameMark (l l' : Lexeme) : Prop :=
  l.kind = l'.kind ∧ (l.kind = .punct → l.text = l'.text)

/-- **What stands in lexemes that are no marks has no say in the search.** -/
theorem closingFrom_congr {ls' : List Lexeme} (h : List.Forall₂ Lexeme.SameMark ls ls') :
    closingFrom stack index ls = closingFrom stack index ls' := by
  induction h generalizing stack index with
  | nil => rfl
  | @cons l l' ls ls' hl _ ih =>
    obtain ⟨hkind, htext⟩ := hl
    rw [closingFrom.eq_def, closingFrom.eq_def]
    dsimp only
    simp only [ih, hkind]
    by_cases hpunct : l'.kind = .punct
    · rw [if_pos hpunct, if_pos hpunct, htext (hkind.trans hpunct)]
    · rw [if_neg hpunct, if_neg hpunct]

end Rounds

/-! ## Files -/

theorem forall₂_lexemes {text text' : List Char}
    (h : List.Forall₂ Lexeme.SameMark (scan text) (scan text')) :
    List.Forall₂ Lexeme.SameMark (lexemes text) (lexemes text') :=
  List.rel_filter (fun _ _ hl ↦ by simp only [hl.1]) h

namespace File

variable {f : File} {start : Nat} {o : Lexeme} {due : String}

/-- The lexemes between two indices. -/
def between (f : File) (start stop : Nat) : List Lexeme := (f.lexemes.take stop).drop (start + 1)

theorem between_of_drop {passed rest : List Lexeme} {c : Lexeme}
    (h : f.lexemes.drop (start + 1) = passed ++ c :: rest) :
    f.between start (start + 1 + passed.length) = passed ∧
      f.lexemes[start + 1 + passed.length]? = some c := by
  constructor
  · rw [between, List.drop_take, h, Nat.add_sub_cancel_left, List.take_left]
  · rw [← List.getElem?_drop, h, List.getElem?_append_right (Nat.le_refl _), Nat.sub_self]
    rfl

theorem drop_of_between {i : Nat} {c : Lexeme} (hlt : start < i) (hc : f.lexemes[i]? = some c) :
    f.lexemes.drop (start + 1) = f.between start i ++ c :: f.lexemes.drop (i + 1) ∧
      start + 1 + (f.between start i).length = i := by
  obtain ⟨hi, rfl⟩ := List.getElem?_eq_some_iff.mp hc
  constructor
  · rw [between, ← List.drop_eq_getElem_cons hi]
    rw [← List.drop_append_of_le_length (by rw [List.length_take]; omega), List.take_append_drop]
  · rw [between, List.length_drop, List.length_take]
    omega

/-- The search that finds the end of a group. -/
theorem closing_eq (ho : f.lexemes[start]? = some o) (hdue : closerOf o.text = some due) :
    f.closing start =
      match closingFrom [due] (start + 1) (f.lexemes.drop (start + 1)) with
      | .ok r => .ok r
      | .error none => .error (f.complain start .unclosedDelimiter)
      | .error (some (index, text)) => .error (f.complain index (.unexpectedCloser text)) := by
  have hopener : ((f.lexemes[start]?).bind fun l ↦ closerOf l.text) = some due := by
    rw [ho, Option.bind_some, hdue]
  rw [closing]
  generalize ((f.lexemes[start]?).bind fun l ↦ closerOf l.text) = opener at hopener ⊢
  subst hopener
  rfl

/-- **The search finds where the group ends.** -/
theorem closing_eq_ok_iff_between (ho : f.lexemes[start]? = some o)
    (hdue : closerOf o.text = some due) {r : Nat} :
    f.closing start = .ok r ↔
      start < r ∧ Balanced (f.between start r) ∧ ∃ c, f.lexemes[r]? = some c ∧ c.Closes due := by
  constructor
  · intro h
    obtain ⟨o', due', body, c, rest, hdrop, hdue', hbody, hc, rfl⟩ := closing_eq_ok_iff.mp h
    have ho' : o = o' := by
      have hhead := List.head?_drop (l := f.lexemes) (i := start)
      rw [hdrop, ho] at hhead
      exact (Option.some.inj hhead).symm
    rw [← ho', hdue] at hdue'
    obtain rfl := Option.some.inj hdue'
    have htail : f.lexemes.drop (start + 1) = body ++ c :: rest := by
      rw [← List.tail_drop, hdrop, List.tail_cons]
    obtain ⟨hbetween, hend⟩ := between_of_drop htail
    exact ⟨by omega, by rwa [hbetween], c, hend, hc⟩
  · rintro ⟨hlt, hbody, c, hend, hc⟩
    obtain ⟨hdrop, hlength⟩ := drop_of_between hlt hend
    rw [closing_eq ho hdue, hdrop, closingFrom_eq_ok hdue hbody hc, hlength]

/-- **The search complains about the first closing delimiter that is not the innermost one due**, or
else about the group that does not end. -/
theorem closing_eq_error_iff (ho : f.lexemes[start]? = some o) (hdue : closerOf o.text = some due)
    {e : Failure} :
    f.closing start = .error e ↔
      (∃ i c opened inner outer, start < i ∧ f.lexemes[i]? = some c ∧
        LeavesOpen (f.between start i) opened ∧ opened ++ [due] = inner :: outer ∧ c.IsCloser ∧
          c.text ≠ inner ∧ e = f.complain i (.unexpectedCloser c.text)) ∨
      (∃ opened, LeavesOpen (f.lexemes.drop (start + 1)) opened ∧
        e = f.complain start .unclosedDelimiter) := by
  rw [closing_eq ho hdue]
  constructor
  · intro h
    have hends : Ends [due] (start + 1) (f.lexemes.drop (start + 1)) _ :=
      ends_closingFrom (List.cons_ne_nil _ _)
    generalize hls : f.lexemes.drop (start + 1) = ls at h hends
    generalize closingFrom [due] (start + 1) ls = result at h hends
    cases hends with
    | found => cases h
    | mismatch hpassed hc hne =>
      cases h
      obtain ⟨opened, hopened, hopen⟩ := passes_iff.mp hpassed
      obtain ⟨hbetween, hget⟩ := between_of_drop hls
      exact .inl ⟨_, _, opened, _, _, by omega, hget, by rwa [hbetween], hopened.symm, hc, hne, rfl⟩
    | unclosed hpassed =>
      cases h
      obtain ⟨opened, -, hopen⟩ := passes_iff.mp hpassed
      exact .inr ⟨opened, hopen, rfl⟩
  · rintro (⟨i, c, opened, inner, outer, hlt, hget, hopen, hopened, hc, hne, rfl⟩ |
      ⟨opened, hopen, rfl⟩)
    · obtain ⟨hdrop, hlength⟩ := drop_of_between hlt hget
      have hpassed := hopen.passes (List.cons_ne_nil due [])
      rw [hopened] at hpassed
      rw [hdrop, hpassed.closingFrom, closingFrom_mismatch hc hne, hlength]
    · rw [← List.append_nil (f.lexemes.drop (start + 1)),
        (hopen.passes (List.cons_ne_nil due [])).closingFrom, closingFrom]

/-- **What comes of the search for the end of a group.**  It finds the delimiter that closes the
group iff the lexemes between are well nested; it complains about the first closing delimiter that
does not match the innermost open one, or about the group if the lexemes run out first.  Wherever it
has come to, its stack is not empty; and it does not look into comments, strings and characters. -/
theorem closing_outcome {path : String} {text : List Char}
    (ho : (ofText path text).lexemes[start]? = some o) (hdue : closerOf o.text = some due) :
    (∀ r, (ofText path text).closing start = .ok r ↔
      start < r ∧ Balanced ((ofText path text).between start r) ∧
        ∃ c, (ofText path text).lexemes[r]? = some c ∧ c.Closes due) ∧
    (∀ e, (ofText path text).closing start = .error e ↔
      (∃ i c opened inner outer, start < i ∧ (ofText path text).lexemes[i]? = some c ∧
        LeavesOpen ((ofText path text).between start i) opened ∧
          opened ++ [due] = inner :: outer ∧ c.IsCloser ∧ c.text ≠ inner ∧
            e = (ofText path text).complain i (.unexpectedCloser c.text)) ∨
      (∃ opened, LeavesOpen ((ofText path text).lexemes.drop (start + 1)) opened ∧
        e = (ofText path text).complain start .unclosedDelimiter)) ∧
    (∀ passed rest stack, (ofText path text).lexemes.drop (start + 1) = passed ++ rest →
      Passes [due] passed stack → stack ≠ [] ∧
        closingFrom [due] (start + 1) (passed ++ rest) =
          closingFrom stack (start + 1 + passed.length) rest) ∧
    (∀ text', List.Forall₂ Lexeme.SameMark (scan text) (scan text') →
      ∃ o', (ofText path text').lexemes[start]? = some o' ∧ o'.text = o.text ∧
        closingFrom [due] (start + 1) ((ofText path text').lexemes.drop (start + 1)) =
          closingFrom [due] (start + 1) ((ofText path text).lexemes.drop (start + 1))) := by
  refine ⟨fun _ ↦ closing_eq_ok_iff_between ho hdue, fun _ ↦ closing_eq_error_iff ho hdue,
    fun passed rest stack _ hpasses ↦
      ⟨hpasses.ne_nil (List.cons_ne_nil _ _), hpasses.closingFrom⟩, fun text' hsame ↦ ?_⟩
  have hlexemes := forall₂_lexemes hsame
  have hopener : o.kind = .punct := isLexed_ofText path text o (List.mem_of_getElem? ho)
    (.inl (by rw [hdue]; rfl))
  obtain ⟨hlt, rfl⟩ := List.getElem?_eq_some_iff.mp ho
  have hlt' : start < (Spelling.lexemes text').length := hlexemes.length_eq ▸ hlt
  obtain ⟨-, htext⟩ := hlexemes.get hlt hlt'
  refine ⟨_, List.getElem?_eq_getElem hlt', (htext hopener).symm, ?_⟩
  exact (closingFrom_congr (List.forall₂_drop (start + 1) hlexemes)).symm

/-- A group with a comment, a string and a character that hold delimiters. -/
theorem closing_outcome_of_quoted :
    (ofText "token.rs" "( /* ) */ [\")\"] ')' ) ]".toList).closing 0 = .ok 5 := by
  have ho : (ofText "token.rs" "( /* ) */ [\")\"] ')' ) ]".toList).lexemes[0]? =
      some ⟨.punct, "(", 0⟩ := rfl
  have hdue : closerOf "(" = some ")" := rfl
  have hopens : (⟨.punct, "[", 10⟩ : Lexeme).Opens "]" := ⟨rfl, rfl⟩
  have hcloses : (⟨.punct, "]", 14⟩ : Lexeme).Closes "]" := ⟨rfl, rfl⟩
  have hstring : (⟨.string, "\")\"", 11⟩ : Lexeme).IsPlain := nofun
  have hchar : (⟨.char, "')'", 16⟩ : Lexeme).IsPlain := nofun
  refine ((closing_outcome ho hdue).1 5).mpr ⟨by decide, ?_, ⟨.punct, ")", 20⟩, rfl, rfl, rfl⟩
  exact .group hopens (.plain hstring .nil) hcloses (.plain hchar .nil)

end File
end Spelling
end NodeSchema
