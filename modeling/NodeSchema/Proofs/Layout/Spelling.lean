import NodeSchema.Proofs.Layout.Basic
import NodeSchema.Proofs.Rust.Lexeme.Extent
import NodeSchema.Proofs.Spelling.Rules

/-!
# Layouts in a spelling file

A spelling file is cut into words and single characters.  In front of a closing bracket a layout is
cut into pieces of its own (`exists_pieces`): blanks, and lexemes that hold no blank and are no
delimiters.  So the lexemes run together are the layout without its blanks.

`File.HoldsRule` says that the table of a file holds nothing but the rule that gives a layout a
symbol.  Such a table maps the layout without its blanks to the symbol (`ofFile_of_holdsRule`).
-/

set_option autoImplicit false

namespace NodeSchema
namespace Spelling

open Text

/-! ## One piece -/

/-- The piece is made of blanks, or it is a lexeme without blanks that is no delimiter. -/
def Lexeme.IsLaid (l : Lexeme) : Prop :=
  l.kind.isTrivia = true ∧ (∀ c ∈ l.text.toList, isBlank c = true) ∨
    l.kind.isTrivia = false ∧ (∀ c ∈ l.text.toList, isBlank c = false) ∧ l.IsPlain

theorem isBlank_of_isWordChar {c : Char} (h : isWordChar c = true) : isBlank c = false := by
  refine Bool.eq_false_iff.mpr fun hblank ↦ ?_
  have hword : isWordChar c = false := eq_false_of_isBlank (by decide +kernel) hblank
  rw [h] at hword
  cases hword

theorem isBlank_of_mem_takeWhile {u : List Char} :
    ∀ c ∈ u.takeWhile isWordChar, isBlank c = false :=
  fun c hc ↦ isBlank_of_isWordChar (List.all_eq_true.mp List.all_takeWhile c hc)

theorem closerOf_singleton {c : Char} (h : c ∉ foreignChars) :
    closerOf (String.ofList [c]) = none ∧ isCloser (String.ofList [c]) = false := by
  have hne {d : Char} (hd : d ∈ foreignChars) : String.ofList [c] ≠ String.ofList [d] := by
    intro heq
    have hlist := congrArg String.toList heq
    rw [String.toList_ofList, String.toList_ofList] at hlist
    exact h ((List.cons.inj hlist).1 ▸ hd)
  constructor
  · rw [closerOf, if_neg (hne (d := '(') (by decide)), if_neg (hne (d := '[') (by decide)),
      if_neg (hne (d := '\x7b') (by decide))]
  · rw [isCloser, decide_eq_false (hne (d := ')') (by decide)),
      decide_eq_false (hne (d := ']') (by decide)), decide_eq_false (hne (d := '\x7d') (by decide))]
    rfl

section Measure

variable {c : Char} {rest : List Char}

theorem measureComment_eq_none (h : IsUncommented (c :: rest)) (t : List Char) :
    measureComment c (rest ++ ']' :: t) = none := by
  rw [measureComment.eq_def]
  split
  · next hrest => exact absurd hrest (h.append_ne_cons (.inl rfl) t _)
  · next hrest => exact absurd hrest (h.append_ne_cons (.inr rfl) t _)
  · rfl

theorem measureQuoted_eq_none (h : ∀ d ∈ c :: rest, ¬ IsQuote d) (t : List Char) :
    measureQuoted c (rest ++ ']' :: t) = none := by
  obtain ⟨hc, hrest⟩ := List.forall_mem_cons.mp h
  have hhead {d : Char} {more : List Char} (hcons : rest ++ ']' :: t = d :: more) :
      ¬ IsQuote d := by
    cases rest with
    | nil =>
      obtain ⟨rfl, -⟩ := List.cons.inj hcons
      simp [IsQuote]
    | cons d' rest =>
      obtain ⟨rfl, -⟩ := List.cons.inj hcons
      exact hrest d' List.mem_cons_self
  rw [measureQuoted.eq_def]
  split
  · exact absurd (.inl rfl) hc
  · exact absurd (.inr rfl) hc
  · next hcons => exact absurd (.inl rfl) (hhead hcons)
  · next hcons => exact absurd (.inr rfl) (hhead hcons)
  · rfl

end Measure

/-- What begins no lifetime and no raw name is measured by its word characters. -/
theorem measureWord_plain {c : Char} (hquote : c ≠ '\'') {rest : List Char}
    (hraw : ∀ s w, c = 'r' → rest = '#' :: s :: w → isNameStart s = false) :
    measureWord c rest =
      if isNameStart c then some (.ident, 1 + wordRun rest)
      else if c.isDigit then some (.number, 1 + wordRun rest)
      else none := by
  rw [measureWord.eq_def]
  split
  · exact absurd rfl hquote
  · next s more =>
    rw [if_neg (by rw [hraw s more rfl rfl]; exact Bool.false_ne_true), if_pos (by decide)]
    rfl
  · rfl

/-- The word characters at the front are the same with a bracket behind. -/
theorem wordRun_fence (rest t : List Char) :
    1 + wordRun (rest ++ ']' :: t) = (rest.takeWhile isWordChar).length + 1 := by
  rw [wordRun, Rust.Lexeme.takeWhile_fence (by decide), Nat.add_comm]

/-- In front of a closing bracket no word begins, or one that holds no blank. -/
theorem measureWord_cases {c : Char} (hquote : c ≠ '\'') (rest : List Char) :
    (∀ t, measureWord c (rest ++ ']' :: t) = none) ∨
      ∃ kind u v, (kind = .ident ∨ kind = .number) ∧ rest = u ++ v ∧
        (∀ d ∈ c :: u, isBlank d = false) ∧
          ∀ t, measureWord c (rest ++ ']' :: t) = some (kind, u.length + 1) := by
  by_cases hraw : ∃ s w, c = 'r' ∧ rest = '#' :: s :: w ∧ isNameStart s = true
  · obtain ⟨s, w, rfl, rfl, hs⟩ := hraw
    refine .inr ⟨.ident, '#' :: s :: w.takeWhile isWordChar, w.dropWhile isWordChar, .inl rfl,
      congrArg ('#' :: s :: ·) List.takeWhile_append_dropWhile.symm, ?_, fun t ↦ ?_⟩
    · simp only [List.forall_mem_cons]
      exact ⟨by decide, by decide, isBlank_of_isWordChar (isWordChar_of_isNameStart hs),
        isBlank_of_mem_takeWhile⟩
    · have hmeasure : measureWord 'r' ('#' :: s :: (w ++ ']' :: t)) =
          if isNameStart s then some (.ident, 3 + wordRun (w ++ ']' :: t)) else some (.ident, 1) :=
        rfl
      have hrun := wordRun_fence w t
      rw [List.cons_append, List.cons_append, hmeasure, if_pos hs, List.length_cons,
        List.length_cons, ← hrun, Nat.add_comm 1, Nat.add_comm 3]
  · have hplain (t : List Char) (s : Char) (more : List Char) (hr : c = 'r')
        (hrest : rest ++ ']' :: t = '#' :: s :: more) : isNameStart s = false := by
      refine Bool.eq_false_iff.mpr fun hs ↦ hraw ?_
      -- The raw name would begin before the bracket, which begins no name.
      rcases rest with _ | ⟨a, _ | ⟨d, w⟩⟩
      · exact absurd (List.cons.inj hrest).1 (by decide)
      · obtain rfl := (List.cons.inj (List.cons.inj hrest).2).1
        cases hs
      · obtain ⟨ha, hrest⟩ := List.cons.inj hrest
        obtain ⟨rfl, -⟩ := List.cons.inj hrest
        exact ⟨d, w, hr, by rw [ha], hs⟩
    simp only [fun t ↦ measureWord_plain hquote (hplain t), wordRun_fence]
    have hword (h : isWordChar c = true) :
        ∀ d ∈ c :: rest.takeWhile isWordChar, isBlank d = false :=
      List.forall_mem_cons.mpr ⟨isBlank_of_isWordChar h, isBlank_of_mem_takeWhile⟩
    by_cases hname : isNameStart c = true
    · refine .inr ⟨.ident, _, _, .inl rfl, List.takeWhile_append_dropWhile.symm,
        hword (isWordChar_of_isNameStart hname), fun t ↦ ?_⟩
      rw [if_pos hname]
    by_cases hdigit : c.isDigit = true
    · have halphanum : c.isAlphanum = true := by rw [Char.isAlphanum, hdigit, Bool.or_true]
      refine .inr ⟨.number, _, _, .inr rfl, List.takeWhile_append_dropWhile.symm,
        hword (isWordChar_of_isAlphanum halphanum), fun t ↦ ?_⟩
      rw [if_neg hname, if_pos hdigit]
    · exact .inl fun t ↦ by rw [if_neg hname, if_neg hdigit]

/-- In front of a closing bracket a layout begins with a piece of its own. -/
theorem exists_measure {c : Char} {rest : List Char}
    (hchars : ∀ d ∈ c :: rest, IsLayoutChar isBlank d) (hcomment : IsUncommented (c :: rest)) :
    ∃ kind u v, rest = u ++ v ∧
      (∀ t, measure c (rest ++ ']' :: t) = (kind, u.length + 1)) ∧
      ∀ offset, (⟨kind, String.ofList (c :: u), offset⟩ : Lexeme).IsLaid := by
  have hforeign (d : Char) (hd : d ∈ c :: rest) : d ∉ foreignChars :=
    (hchars d hd).notMem_foreignChars (fun _ h ↦ h)
  have hquote (d : Char) (hd : d ∈ c :: rest) : ¬ IsQuote d := by
    rintro (rfl | rfl) <;> exact hforeign _ hd (by decide)
  have hc := hforeign c List.mem_cons_self
  by_cases hblank : isBlank c = true
  · refine ⟨.blank, rest.takeWhile isBlank, _, List.takeWhile_append_dropWhile.symm, fun t ↦ ?_,
      fun offset ↦ .inl ⟨rfl, ?_⟩⟩
    · rw [measure, if_pos hblank, Rust.Lexeme.takeWhile_fence (by decide), Nat.add_comm]
    · rw [String.toList_ofList]
      exact List.forall_mem_cons.mpr ⟨hblank, List.all_eq_true.mp List.all_takeWhile⟩
  have hmeasure (t : List Char) : measure c (rest ++ ']' :: t) =
      (measureWord c (rest ++ ']' :: t)).getD (.punct, 1) := by
    rw [measure, if_neg hblank, measureComment_eq_none hcomment t, measureQuoted_eq_none hquote t,
      Option.none_or, Option.none_or]
  have hcquote : c ≠ '\'' := fun h ↦ hquote c List.mem_cons_self (.inr h)
  rcases measureWord_cases hcquote rest with hnone | ⟨kind, u, v, hkind, hv, hu, hword⟩
  · refine ⟨.punct, [], rest, rfl, fun t ↦ ?_, fun offset ↦ .inr ⟨rfl, ?_, fun _ ↦ ?_⟩⟩
    · rw [hmeasure, hnone]
      rfl
    · rw [String.toList_ofList]
      simpa using hblank
    · exact closerOf_singleton hc
  · refine ⟨kind, u, v, hv, fun t ↦ ?_, fun offset ↦ .inr ⟨?_, ?_, ?_⟩⟩
    · rw [hmeasure, hword, Option.getD_some]
    · rcases hkind with rfl | rfl <;> rfl
    · rwa [String.toList_ofList]
    · rintro rfl
      rcases hkind with hkind | hkind <;> cases hkind

/-! ## All pieces -/

theorem scanAfter_eq_scanAfter_drop (skip offset : Nat) (cs : List Char) :
    scanAfter skip offset cs = scanAfter 0 (offset + skip) (cs.drop skip) := by
  induction cs generalizing skip offset with
  | nil => cases skip <;> rfl
  | cons c cs ih =>
    cases skip with
    | zero => rfl
    | succ skip =>
      rw [scanAfter, ih, List.drop_succ_cons]
      congr 1
      omega

theorem scanAfter_cons {c : Char} {u rest : List Char} {kind : PieceKind} (offset : Nat)
    (h : measure c (u ++ rest) = (kind, u.length + 1)) :
    scanAfter 0 offset (c :: (u ++ rest)) =
      ⟨kind, String.ofList (c :: u), offset⟩ ::
        scanAfter 0 (offset + (c :: u).length) rest := by
  rw [scanAfter, h]
  dsimp only
  rw [Nat.add_sub_cancel, List.take_left, scanAfter_eq_scanAfter_drop, List.drop_left,
    List.length_cons]
  congr 2
  omega

/-- **In front of a closing bracket a layout is cut into pieces of its own.** -/
theorem exists_pieces {cs : List Char} (hchars : ∀ c ∈ cs, IsLayoutChar isBlank c)
    (hcomment : IsUncommented cs) (offset : Nat) :
    ∃ ls, (∀ t, scanAfter 0 offset (cs ++ ']' :: t) =
        ls ++ scanAfter 0 (offset + cs.length) (']' :: t)) ∧
      flatten ls = cs ∧ ∀ l ∈ ls, l.IsLaid := by
  induction hn : cs.length using Nat.strongRecOn generalizing cs offset with
  | ind n ih =>
    subst hn
    cases cs with
    | nil => exact ⟨[], fun _ ↦ rfl, rfl, nofun⟩
    | cons c rest =>
      obtain ⟨kind, u, v, rfl, hmeasure, hlaid⟩ := exists_measure hchars hcomment
      simp only [List.append_assoc] at hmeasure
      have hv : ∀ d ∈ v, IsLayoutChar isBlank d := fun d hd ↦ hchars d (by simp [hd])
      obtain ⟨ls, hls, hflat, hall⟩ := ih v.length
        (by rw [List.length_cons, List.length_append]; omega) hv
        (IsUncommented.of_append (u := c :: u) hcomment) (offset + (c :: u).length) rfl
      refine ⟨⟨kind, String.ofList (c :: u), offset⟩ :: ls, fun t ↦ ?_, ?_,
        List.forall_mem_cons.mpr ⟨hlaid offset, hall⟩⟩
      · rw [List.cons_append, List.append_assoc, scanAfter_cons offset (hmeasure t), hls,
          List.cons_append, Nat.add_assoc, ← List.length_append]
        rfl
      · rw [flatten, List.flatMap_cons, String.toList_ofList, ← List.cons_append]
        exact congrArg (c :: u ++ ·) hflat

/-- The lexemes among pieces. -/
def withoutTrivia (ls : List Lexeme) : List Lexeme := ls.filter fun l ↦ !l.kind.isTrivia

/-- The lexemes of a layout are the layout without its blanks. -/
theorem flatten_withoutTrivia {ls : List Lexeme} (h : ∀ l ∈ ls, l.IsLaid) :
    flatten (withoutTrivia ls) = removeBlanks (flatten ls) := by
  induction ls with
  | nil => rfl
  | cons l ls ih =>
    obtain ⟨hl, hls⟩ := List.forall_mem_cons.mp h
    rw [withoutTrivia, List.filter_cons]
    rw [removeBlanks, show flatten (l :: ls) = l.text.toList ++ flatten ls from List.flatMap_cons,
      List.filter_append]
    rcases hl with ⟨htrivia, hblank⟩ | ⟨htrivia, hblank, -⟩
    · have hnone : (l.text.toList.filter fun c ↦ !isBlank c) = [] := by
        refine List.filter_eq_nil_iff.mpr fun c hc ↦ ?_
        rw [hblank c hc]
        exact Bool.false_ne_true
      rw [htrivia, hnone]
      exact ih hls
    · have hall : (l.text.toList.filter fun c ↦ !isBlank c) = l.text.toList := by
        refine List.filter_eq_self.mpr fun c hc ↦ ?_
        rw [hblank c hc]
        rfl
      rw [htrivia, hall]
      exact congrArg (l.text.toList ++ ·) (ih hls)

theorem balanced_withoutTrivia {ls : List Lexeme} (h : ∀ l ∈ ls, l.IsLaid) :
    Balanced (withoutTrivia ls) := by
  induction ls with
  | nil => exact .nil
  | cons l ls ih =>
    obtain ⟨hl, hls⟩ := List.forall_mem_cons.mp h
    rw [withoutTrivia, List.filter_cons]
    rcases hl with ⟨htrivia, -⟩ | ⟨htrivia, -, hplain⟩
    · rw [htrivia]
      exact ih hls
    · rw [htrivia]
      exact .plain hplain (ih hls)

/-! ## The rule of a layout -/

/-- A rule that gives a layout a symbol. -/
def ruleText (layout symbol : List Char) : List Char :=
  '[' :: (layout ++ ']' :: (" => \x7b $crate::".toList ++ (symbol ++ " \x7d;".toList)))

theorem measure_of_isName {c : Char} {cs : List Char} (h : IsName (c :: cs)) (t : List Char) :
    measure c (cs ++ ' ' :: t) = (.ident, cs.length + 1) := by
  cases h with
  | mk hc hcs =>
    have hstop : isWordChar ' ' = false := by decide
    have hne {d : Char} (hd : isNameStart d = false) : c ≠ d := by
      rintro rfl
      rw [hd] at hc
      cases hc
    have hhead {d : Char} {more : List Char} (hword : isWordChar d = false) (hspace : d ≠ ' ') :
        cs ++ ' ' :: t ≠ d :: more := by
      intro heq
      cases cs with
      | nil => exact hspace (List.cons.inj heq).1.symm
      | cons d' cs =>
        obtain ⟨rfl, -⟩ := List.cons.inj heq
        rw [hcs d' List.mem_cons_self] at hword
        cases hword
    have hcomment : measureComment c (cs ++ ' ' :: t) = none := by
      rw [measureComment.eq_def]
      split
      · exact absurd rfl (hne (by decide))
      · exact absurd rfl (hne (by decide))
      · rfl
    have hquoted : measureQuoted c (cs ++ ' ' :: t) = none := by
      rw [measureQuoted.eq_def]
      split
      · exact absurd rfl (hne (by decide))
      · exact absurd rfl (hne (by decide))
      · next heq => exact absurd heq (hhead (by decide) (by decide))
      · next heq => exact absurd heq (hhead (by decide) (by decide))
      · rfl
    have hword : measureWord c (cs ++ ' ' :: t) = some (.ident, cs.length + 1) := by
      rw [measureWord.eq_def]
      split
      · exact absurd rfl (hne (by decide))
      · next heq => exact absurd heq (hhead (by decide) (by decide))
      · rw [if_pos hc, wordRun, List.takeWhile_append_of_pos hcs,
          List.takeWhile_cons_of_neg (by rw [hstop]; exact Bool.false_ne_true), List.append_nil,
          Nat.add_comm]
    have hblank := isBlank_of_isWordChar (isWordChar_of_isNameStart hc)
    rw [measure, if_neg (by rw [hblank]; exact Bool.false_ne_true), hcomment, hquoted, hword]
    rfl

/-- The lexemes of the expansion of a rule, of which the first has the given offset. -/
def expansionOf (symbol : List Char) (offset : Nat) : List Lexeme :=
  [⟨.punct, "$", offset⟩, ⟨.ident, "crate", offset + 1⟩, ⟨.punct, ":", offset + 6⟩,
    ⟨.punct, ":", offset + 7⟩, ⟨.ident, String.ofList symbol, offset + 8⟩]

/-- The lexemes of a rule, of which the first has the given offset; those of the spelling are
given. -/
def ruleLexemes (spelled : List Lexeme) (symbol : List Char) (offset stop : Nat) : List Lexeme :=
  ⟨.punct, "[", offset⟩ :: (spelled ++ ⟨.punct, "]", stop⟩ :: ⟨.punct, "=", stop + 2⟩ ::
    ⟨.punct, ">", stop + 3⟩ :: ⟨.punct, "\x7b", stop + 5⟩ ::
      (expansionOf symbol (stop + 7) ++ [⟨.punct, "\x7d", stop + 15 + symbol.length + 1⟩]))

/-- The lexemes of the rule from the bracket on that closes the layout. -/
theorem lexemes_target {symbol : List Char} (h : IsName symbol) (spelled : List Lexeme)
    (offset stop : Nat) (t : List Char) :
    ⟨.punct, "[", offset⟩ :: (spelled ++ withoutTrivia (scanAfter 0 stop
        (']' :: (" => \x7b $crate::".toList ++ (symbol ++ (" \x7d;".toList ++ t)))))) =
      ruleLexemes spelled symbol offset stop ++
        ⟨.punct, ";", stop + 15 + symbol.length + 2⟩ ::
          withoutTrivia (scanAfter 0 (stop + 15 + symbol.length + 3) t) := by
  obtain ⟨c, cs, rfl⟩ : ∃ c cs, symbol = c :: cs := by
    cases h
    exact ⟨_, _, rfl⟩
  have hname : scanAfter 0 (stop + 15) (c :: cs ++ (" \x7d;".toList ++ t)) =
      ⟨.ident, String.ofList (c :: cs), stop + 15⟩ ::
        scanAfter 0 (stop + 15 + (c :: cs).length) (" \x7d;".toList ++ t) :=
    scanAfter_cons (stop + 15) (measure_of_isName h ("\x7d;".toList ++ t))
  have hend (n : Nat) : scanAfter 0 n (" \x7d;".toList ++ t) =
      ⟨.blank, " ", n⟩ :: ⟨.punct, "\x7d", n + 1⟩ :: ⟨.punct, ";", n + 2⟩ ::
        scanAfter 0 (n + 3) t := rfl
  have hscan : scanAfter 0 stop
        (']' :: (" => \x7b $crate::".toList ++ (c :: cs ++ (" \x7d;".toList ++ t)))) =
      ⟨.punct, "]", stop⟩ :: ⟨.blank, " ", stop + 1⟩ :: ⟨.punct, "=", stop + 2⟩ ::
        ⟨.punct, ">", stop + 3⟩ :: ⟨.blank, " ", stop + 4⟩ :: ⟨.punct, "\x7b", stop + 5⟩ ::
        ⟨.blank, " ", stop + 6⟩ :: ⟨.punct, "$", stop + 7⟩ :: ⟨.ident, "crate", stop + 8⟩ ::
        ⟨.punct, ":", stop + 13⟩ :: ⟨.punct, ":", stop + 14⟩ ::
        scanAfter 0 (stop + 15) (c :: cs ++ (" \x7d;".toList ++ t)) := rfl
  rw [hscan, hname, hend, ruleLexemes, List.cons_append, List.append_assoc]
  rfl

theorem balanced_expansionOf (symbol : List Char) (offset : Nat) :
    Balanced (expansionOf symbol offset) :=
  .plain (fun _ ↦ ⟨rfl, rfl⟩) <| .plain nofun <| .plain (fun _ ↦ ⟨rfl, rfl⟩) <|
    .plain (fun _ ↦ ⟨rfl, rfl⟩) <| .plain nofun .nil

theorem isRule_ruleLexemes {spelled : List Lexeme} (hspelled : Balanced spelled) {symbol : String}
    (h : IsName symbol.toList) (offset stop : Nat) :
    IsRule (ruleLexemes spelled symbol.toList offset stop) (joined spelled) symbol := by
  obtain ⟨hpath, hlast⟩ := isPath_crate h
  have hsymbol : lastName (String.ofList ("crate::".toList ++ symbol.toList)) = symbol := by
    rw [lastName, String.toList_ofList, hlast, String.ofList_toList]
  have htarget : joined (expansionOf symbol.toList (stop + 7)) =
      "$" ++ String.ofList ("crate::".toList ++ symbol.toList) := by
    refine String.toList_injective ?_
    rw [toList_joined, toList_dollar_append, String.toList_ofList]
    simp [expansionOf]
  have hrule : IsRule (ruleLexemes spelled symbol.toList offset stop) (joined spelled)
      (lastName (String.ofList ("crate::".toList ++ symbol.toList))) :=
    .mk rfl hspelled ⟨rfl, rfl⟩ rfl rfl rfl (balanced_expansionOf _ _) ⟨rfl, rfl⟩ htarget hpath
  rwa [hsymbol] at hrule

/-- **The lexemes of a rule**, of which those of the spelling are the layout without its blanks. -/
theorem exists_ruleLexemes {layout : List Char} (hchars : ∀ c ∈ layout, IsLayoutChar isBlank c)
    (hcomment : IsUncommented layout) {symbol : List Char} (hsymbol : IsName symbol)
    (offset : Nat) :
    ∃ spelled stop n, Balanced spelled ∧ joined spelled = String.ofList (removeBlanks layout) ∧
      ∀ t, withoutTrivia (scanAfter 0 offset (ruleText layout symbol ++ t)) =
        ruleLexemes spelled symbol offset stop ++
          ⟨.punct, ";", n⟩ :: withoutTrivia (scanAfter 0 (n + 1) t) := by
  obtain ⟨ls, hls, hflat, hlaid⟩ := exists_pieces hchars hcomment (offset + 1)
  refine ⟨withoutTrivia ls, offset + 1 + layout.length,
    offset + 1 + layout.length + 15 + symbol.length + 2, balanced_withoutTrivia hlaid, ?_,
    fun t ↦ ?_⟩
  · refine String.toList_injective ?_
    rw [toList_joined, String.toList_ofList, ← hflat]
    exact flatten_withoutTrivia hlaid
  · have hopen : scanAfter 0 offset (ruleText layout symbol ++ t) =
        ⟨.punct, "[", offset⟩ :: scanAfter 0 (offset + 1) (layout ++ ']' ::
          (" => \x7b $crate::".toList ++ (symbol ++ (" \x7d;".toList ++ t)))) := by
      rw [ruleText, List.cons_append, List.append_assoc, List.cons_append, List.append_assoc,
        List.append_assoc]
      rfl
    rw [← lexemes_target hsymbol, hopen, hls, withoutTrivia, withoutTrivia, withoutTrivia,
      ← List.filter_append]
    rfl

/-! ## Files -/

/-- The table of the file, from one index up to another, holds nothing but the rule that gives a
layout a symbol. -/
structure File.HoldsRule (f : File) (start stop : Nat) (layout symbol : List Char) : Prop where
  found : f.findTable = .ok (some (start, stop))
  lexemes : ∃ offset, (f.lexemes.take stop).drop start =
    withoutTrivia (scanAfter 0 offset (ruleText layout symbol))

section Rule

variable {layout : List Char} {symbol : String} (hchars : ∀ c ∈ layout, IsLayoutChar isBlank c)
  (hcomment : IsUncommented layout) (hsymbol : IsName symbol.toList)
include hchars hcomment hsymbol

/-- The lexemes of a rule are what the grammar says, with the layout without its blanks as the
spelling. -/
theorem isRules_ruleText (offset : Nat) :
    IsRules (withoutTrivia (scanAfter 0 offset (ruleText layout symbol.toList)))
      [(String.ofList (removeBlanks layout), symbol)] := by
  obtain ⟨spelled, stop, n, hspelled, hjoined, hrule⟩ :=
    exists_ruleLexemes hchars hcomment hsymbol offset
  have hlexemes := hrule []
  rw [List.append_nil] at hlexemes
  rw [hlexemes, ← hjoined]
  exact .cons (isRule_ruleLexemes hspelled hsymbol offset stop) rfl .nil

/-- **The table maps the layout without its blanks to the symbol.** -/
theorem ofFile_of_holdsRule {path : String} {text : List Char} {start stop : Nat}
    (h : (File.ofText path text).HoldsRule start stop layout symbol.toList) :
    ofFile (.ofText path text) = .ok ⟨[(String.ofList (removeBlanks layout), symbol)]⟩ := by
  obtain ⟨offset, hlexemes⟩ := h.lexemes
  obtain ⟨i, rfl, hclosing⟩ := closing_of_findTableFrom h.found
  have hahead := File.isAhead_of_closing (File.isLexed_ofText path text) hclosing
  have hlength := hahead.length
  have hrules := isRules_ruleText hchars hcomment hsymbol offset
  rw [← hlexemes] at hrules
  rw [ofFile, h.found]
  exact (rulesFrom_eq_ok_iff hahead (by omega)).mpr ⟨_, hrules, rfl⟩

end Rule

end Spelling
end NodeSchema
