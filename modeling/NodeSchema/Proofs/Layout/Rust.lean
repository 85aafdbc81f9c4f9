import NodeSchema.Proofs.Layout.Basic
import NodeSchema.Proofs.Rust.Single

/-!
# Layouts in source text

A type may be written as the call of the token macro on a layout.  The parser reads it as this call
if it gives the call the tokens of the layout (`FileParser.ReadsCalls`); what it passes over between
them is told by the parser.

The parser of the program passes over the ASCII blanks (`Grammar.readsCalls`).  It cuts source text
into words and single punctuation characters, so that in front of a closing bracket a layout is cut
into lexemes of its own (`Lexeme.exists_run`): blanks, words and operator characters.
-/

set_option autoImplicit false

namespace NodeSchema
namespace Rust

open Text

/-- A type that is the call of the token macro on the characters. -/
def callText (cs : List Char) : String := String.ofList ("Token![".toList ++ (cs ++ "]".toList))

/-- The parser gives the call of the token macro on a layout the tokens of the layout: they make up
the layout without its gaps.  The gaps are made of the blanks that the parser passes over. -/
structure FileParser.ReadsCalls [FileParser] (isGap : Char → Bool) : Prop where
  isBlank : ∀ c, isGap c = true → isBlank c = true
  reads : ∀ (es : List Element) (cs : List Char), (∀ e ∈ es, e.IsProper) → Lays isGap es cs →
    IsUncommented cs → ∃ (i : Item) (g : Tree),
      FileParser.parse (bytesOf (typeText (callText cs))) = .ok [.item i] ∧
        i.body = .typeAlias (.macroCall "Token" g) ∧
          g.Encloses (String.ofList (cs.filter fun c ↦ !isGap c))

/-! ## One lexeme -/

/-- The lexeme is made of blanks, or it is a word or an operator character. -/
inductive Lexeme.IsLaid : Lexeme → Prop
  | blank {text : List Char} (h : ∀ c ∈ text, isSpace c = true) : IsLaid ⟨.blank, text⟩
  | word {text : List Char} (h : ∀ c ∈ text, isSpace c = false) : IsLaid ⟨.word, text⟩
  | mark {c : Char} (h : c ∈ operatorChars) : IsLaid ⟨.mark, [c]⟩

namespace Lexeme

theorem isSpace_of_isIdentContinue {c : Char} (h : isIdentContinue c = true) :
    isSpace c = false := by
  refine Bool.eq_false_iff.mpr fun hspace ↦ ?_
  rw [isIdentContinue_of_isBlank (isBlank_of_isSpace hspace)] at h
  cases h

theorem isSpace_of_mem_takeWhile {u : List Char} :
    ∀ c ∈ u.takeWhile isIdentContinue, isSpace c = false :=
  fun _ hc ↦ isSpace_of_isIdentContinue (isIdentContinue_of_mem_takeWhile hc)

theorem head?_dropWhile_isIdentContinue (u : List Char) :
    ∀ c ∈ (u.dropWhile isIdentContinue).head?, isIdentContinue c = false := by
  intro c hc
  have h := List.head?_dropWhile_not isIdentContinue u
  rw [hc] at h
  simpa using h

section Quotes

variable {rest : List Char} (hquotes : ∀ d ∈ rest, d ∉ foreignChars) (t : List Char)
include hquotes

/-- No quote follows directly. -/
theorem ne_cons_of_mem_foreignChars {q : Char} (hq : q ∈ foreignChars) (hbracket : q ≠ ']')
    (more : List Char) : rest ++ ']' :: t ≠ q :: more := by
  intro h
  cases rest with
  | nil => exact hbracket (List.cons.inj h).1.symm
  | cons d rest =>
    obtain ⟨rfl, -⟩ := List.cons.inj h
    exact hquotes d List.mem_cons_self hq

/-- No raw string follows. -/
theorem opensRaw_eq_false : opensRaw (rest ++ ']' :: t) = false := by
  rw [opensRaw_append rest (.inr (.inl rfl)), opensRaw]
  refine decide_eq_false fun h ↦ hquotes '"' ?_ (by decide)
  exact (List.dropWhile_sublist _).subset (List.mem_of_mem_head? h)

/-- What begins with a letter and goes on without a quote is a plain word, if it is no raw one. -/
theorem measureWord_of_notMem {c : Char}
    (hraw : ∀ s w, c = 'r' → rest = '#' :: s :: w → isIdentStart s = false) :
    measureWord c (rest ++ ']' :: t) = some (.word, wordLength rest) := by
  have hlength := wordLength_fence (.inr (.inl rfl)) rest t
  have hquote (more : List Char) := ne_cons_of_mem_foreignChars hquotes t
    (q := '"') (by decide) (by decide) more
  have hchar (more : List Char) := ne_cons_of_mem_foreignChars hquotes t
    (q := '\'') (by decide) (by decide) more
  have hopens := opensRaw_eq_false hquotes t
  by_cases hr : c = 'r'
  · subst hr
    rw [measureWord_r, hopens, if_neg Bool.false_ne_true, hlength]
    split
    · next s more hrest =>
      rw [if_neg]
      rcases rest with _ | ⟨a, _ | ⟨d, w⟩⟩
      · exact absurd (List.cons.inj hrest).1 (by decide)
      · obtain rfl := (List.cons.inj (List.cons.inj hrest).2).1
        exact Bool.false_ne_true
      · obtain ⟨ha, hrest⟩ := List.cons.inj hrest
        obtain ⟨rfl, -⟩ := List.cons.inj hrest
        rw [hraw d w rfl (by rw [ha])]
        exact Bool.false_ne_true
    · rfl
  · -- A letter in front of a raw string stands in front of an `r`.
    have hprefixed {more : List Char} (h : rest ++ ']' :: t = 'r' :: more) :
        opensRaw more = false := by
      cases rest with
      | nil => exact absurd (List.cons.inj h).1 (by decide)
      | cons d w =>
        obtain ⟨-, rfl⟩ := List.cons.inj h
        exact opensRaw_eq_false (List.forall_mem_cons.mp hquotes).2 t
    rw [measureWord.eq_def]
    split
    · exact absurd rfl hr
    · exact absurd rfl hr
    · next h => exact absurd h (hquote _)
    · next h => exact absurd h (hquote _)
    · next h => exact absurd h (hchar _)
    · next h => rw [hprefixed h, if_neg Bool.false_ne_true, hlength]
    · next h => rw [hprefixed h, if_neg Bool.false_ne_true, hlength]
    · rw [hlength]

end Quotes

/-- In front of a closing bracket a layout begins with a lexeme of its own. -/
theorem exists_measure {c : Char} {rest : List Char}
    (hchars : ∀ d ∈ c :: rest, IsLayoutChar isSpace d) (hcomment : IsUncommented (c :: rest))
    (hwords : StartsWords false (c :: rest)) :
    ∃ kind u v, rest = u ++ v ∧
      (∀ t, measure c (rest ++ ']' :: t) = some (kind, u.length + 1)) ∧
      IsLaid ⟨kind, c :: u⟩ ∧ StartsWords false v := by
  obtain ⟨hc, hrest⟩ := List.forall_mem_cons.mp hchars
  have hquotes (d : Char) (hd : d ∈ rest) : d ∉ foreignChars :=
    (hrest d hd).notMem_foreignChars fun _ ↦ isBlank_of_isSpace
  by_cases hspace : isSpace c = true
  · refine ⟨.blank, rest.takeWhile isSpace, rest.dropWhile isSpace,
      List.takeWhile_append_dropWhile.symm, fun t ↦ ?_, .blank ?_, ?_⟩
    · rw [measure, if_pos hspace, takeWhile_fence (by decide), Nat.add_comm]
    · exact List.forall_mem_cons.mpr ⟨hspace, List.all_eq_true.mp List.all_takeWhile⟩
    · have hgap {d : Char} (hd : isSpace d = true) : isIdentContinue d = false :=
        isIdentContinue_of_isBlank (isBlank_of_isSpace hd)
      have h := hwords.2
      rw [hgap hspace, ← List.takeWhile_append_dropWhile (p := isSpace) (l := rest)] at h
      exact h.of_gap fun d hd ↦ hgap (List.all_eq_true.mp List.all_takeWhile d hd)
  by_cases hstart : isIdentStart c = true
  · by_cases hraw : ∃ s w, c = 'r' ∧ rest = '#' :: s :: w ∧ isIdentStart s = true
    · obtain ⟨s, w, rfl, rfl, hs⟩ := hraw
      have hw : w = w.takeWhile isIdentContinue ++ w.dropWhile isIdentContinue :=
        List.takeWhile_append_dropWhile.symm
      refine ⟨.word, '#' :: s :: w.takeWhile isIdentContinue, w.dropWhile isIdentContinue,
        congrArg ('#' :: s :: ·) hw, fun t ↦ ?_, .word ?_, ?_⟩
      · have hlength := wordLength_fence (.inr (.inl rfl)) w t
        rw [measure_of_isIdentStart hstart, measureWord_r, opensRaw_eq_false hquotes t,
          if_neg Bool.false_ne_true]
        show (if isIdentStart s then some (LexemeKind.word, 2 + wordLength (w ++ ']' :: t))
          else _) = _
        rw [if_pos hs, hlength, wordLength, List.length_cons, List.length_cons, Nat.add_comm 1,
          Nat.add_comm 2]
      · simp only [List.forall_mem_cons]
        exact ⟨by decide, by decide,
          isSpace_of_isIdentContinue (isIdentContinue_of_isIdentStart hs), isSpace_of_mem_takeWhile⟩
      · have h := hwords.2.2.2
        rw [hw] at h
        exact h.of_append (head?_dropWhile_isIdentContinue w)
    · refine ⟨.word, rest.takeWhile isIdentContinue, rest.dropWhile isIdentContinue,
        List.takeWhile_append_dropWhile.symm, fun t ↦ ?_, .word ?_, ?_⟩
      · rw [measure_of_isIdentStart hstart, measureWord_of_notMem hquotes t, wordLength,
          Nat.add_comm]
        exact fun s w hr hrest ↦ Bool.eq_false_iff.mpr fun hs ↦ hraw ⟨s, w, hr, hrest, hs⟩
      · exact List.forall_mem_cons.mpr
          ⟨isSpace_of_isIdentContinue (isIdentContinue_of_isIdentStart hstart),
            isSpace_of_mem_takeWhile⟩
      · have h := hwords.2
        rw [← List.takeWhile_append_dropWhile (p := isIdentContinue) (l := rest)] at h
        exact h.of_append (head?_dropWhile_isIdentContinue rest)
  · have hoperator : c ∈ operatorChars := by
      rcases hc with hc | hc | hc
      · exact absurd hc hspace
      · exact absurd ((hwords.1 hc).resolve_left Bool.false_ne_true) hstart
      · exact hc
    refine ⟨.mark, [], rest, rfl, fun t ↦ ?_, .mark hoperator, ?_⟩
    · have hmark : isMark c = true := List.all_eq_true.mp
        (show operatorChars.all isMark = true by decide) c hoperator
      have hdigit : c.isDigit = false := eq_false_of_mem_operatorChars (by decide) hoperator
      have hne {d : Char} (hd : d ∉ operatorChars) : c ≠ d := fun h ↦ hd (h ▸ hoperator)
      have hslash {d : Char} (hd : d = '/' ∨ d = '*') :
          ¬ (decide (c = '/') && decide ((rest ++ ']' :: t).head? = some d)) = true := by
        rw [Bool.and_eq_true, decide_eq_true_eq, decide_eq_true_eq]
        rintro ⟨rfl, hhead⟩
        obtain ⟨more, hmore⟩ := List.head?_eq_some_iff.mp hhead
        exact hcomment.append_ne_cons hd t more hmore
      rw [measure, if_neg hspace, if_neg (hslash (.inl rfl)), if_neg (hslash (.inr rfl)),
        if_neg (hne (by decide)), if_neg (hne (by decide)),
        if_neg (by rw [hdigit]; exact Bool.false_ne_true), if_neg hstart, if_pos hmark]
      rfl
    · have hend : isIdentContinue c = false :=
        eq_false_of_mem_operatorChars (by decide) hoperator
      have h := hwords.2
      rwa [hend] at h

/-! ## All lexemes -/

/-- **In front of a closing bracket a layout is cut into lexemes of its own.** -/
theorem exists_run {cs : List Char} (hchars : ∀ c ∈ cs, IsLayoutChar isSpace c)
    (hcomment : IsUncommented cs) (hwords : StartsWords false cs) :
    ∃ ls, flatten ls = cs ∧ (∀ t, Run (']' :: t) ls) ∧ ∀ l ∈ ls, l.IsLaid := by
  induction hn : cs.length using Nat.strongRecOn generalizing cs with
  | ind n ih =>
    subst hn
    cases cs with
    | nil => exact ⟨[], rfl, fun _ ↦ .nil, nofun⟩
    | cons c rest =>
      obtain ⟨kind, u, v, rfl, hmeasure, hlaid, hv⟩ := exists_measure hchars hcomment hwords
      simp only [List.append_assoc] at hmeasure
      obtain ⟨ls, hflat, hrun, hall⟩ := ih v.length
        (by rw [List.length_cons, List.length_append]; omega)
        (fun d hd ↦ hchars d (by simp [hd])) (IsUncommented.of_append (u := c :: u) hcomment) hv rfl
      refine ⟨⟨kind, c :: u⟩ :: ls, ?_, fun t ↦ ?_, List.forall_mem_cons.mpr ⟨hlaid, hall⟩⟩
      · rw [flatten_cons, hflat]
        rfl
      · refine .cons (n := u.length + 1) ?_ ?_ (hrun t)
        · rw [hflat]
          exact hmeasure t
        · rw [Nat.add_sub_cancel, List.take_left]

end Lexeme

/-! ## Tokens -/

/-- Tokens without what stands between them. -/
theorem text_of_isLaid {toks : List Token} {trail : List Lexeme}
    (hlaid : ∀ l ∈ lexemesOf toks ++ trail, l.IsLaid) (hproper : ∀ t ∈ toks, t.IsProper)
    (htrail : ∀ l ∈ trail, l.IsGap) :
    (∀ t ∈ toks, t.kind ≠ .rawString) ∧ toks.flatMap (fun t ↦ t.text.toList) =
      (Lexeme.flatten (lexemesOf toks ++ trail)).filter fun c ↦ !Lexeme.isSpace c := by
  have hgap {gap : List Lexeme} (hgap : ∀ l ∈ gap, l.IsGap) (hlaid : ∀ l ∈ gap, l.IsLaid) :
      ((Lexeme.flatten gap).filter fun c ↦ !Lexeme.isSpace c) = [] := by
    refine List.filter_eq_nil_iff.mpr fun c hc ↦ ?_
    obtain ⟨l, hl, hc⟩ := List.mem_flatMap.mp hc
    cases hlaid l hl with
    | blank h =>
      rw [h c hc]
      exact Bool.false_ne_true
    | word => rcases hgap _ hl with h | h <;> cases h
    | mark => rcases hgap _ hl with h | h <;> cases h
  induction toks with
  | nil => exact ⟨nofun, (hgap htrail hlaid).symm⟩
  | cons t toks ih =>
    obtain ⟨⟨htgap, ht⟩, hproper⟩ := List.forall_mem_cons.mp hproper
    rw [lexemesOf_cons, List.append_assoc, List.cons_append] at hlaid ⊢
    obtain ⟨hlaidGap, hlaid⟩ := List.forall_mem_append.mp hlaid
    obtain ⟨hlaidToken, hlaid⟩ := List.forall_mem_cons.mp hlaid
    have htoken : t.kind ≠ .rawString ∧
        (t.text.toList.filter fun c ↦ !Lexeme.isSpace c) = t.text.toList := by
      have hcases := hlaidToken
      rw [Token.lexeme] at hcases ht
      generalize t.kind = kind, t.text.toList = text at hcases ht ⊢
      cases hcases with
      | blank => exact absurd (.inl rfl) ht
      | word h => exact ⟨by decide, List.filter_eq_self.mpr fun c hc ↦ by rw [h c hc]; rfl⟩
      | mark h =>
        refine ⟨by decide, List.filter_eq_self.mpr fun c hc ↦ ?_⟩
        obtain rfl := List.mem_singleton.mp hc
        rw [eq_false_of_mem_operatorChars (p := Lexeme.isSpace) (by decide) h]
        rfl
    obtain ⟨hkinds, htext⟩ := ih hlaid hproper
    rw [Lexeme.flatten_append, Lexeme.flatten_cons, List.filter_append, List.filter_append,
      hgap htgap hlaidGap, List.nil_append, ← htext]
    exact ⟨List.forall_mem_cons.mpr ⟨htoken.1, hkinds⟩, congrArg (· ++ _) htoken.2.symm⟩

/-! ## The call of the token macro -/

/-- The trees of a type that is the call of the token macro on the given trees, up to the end of the
alias; lexemes stand between the last of them and the bracket. -/
def callTrees (body : List Tree) (trail : List Lexeme) : List Tree :=
  [.leaf ⟨.word, "Token", space, 0, 0⟩, .leaf ⟨.mark, "!", [], 0, 0⟩,
    .group ⟨.mark, "[", [], 0, 0⟩ body ⟨.mark, "]", trail, 0, 0⟩, .leaf ⟨.mark, ";", [], 0, 0⟩]

namespace Grammar

variable (code : Code) (body : List Tree) (trail : List Lexeme)

/-- The call with the trees as they are written. -/
def callOf (body : List Tree) (trail : List Lexeme) : TypeNode :=
  .macroCall "Token"
    (Tree.joined (.group ⟨.mark, "[", [], 0, 0⟩ body ⟨.mark, "]", trail, 0, 0⟩)).unplaced

theorem pathFuel_call (fuel : Nat) :
    pathFuel code (fuel + 1) (callTrees body trail) .name [] (callTrees body trail).tail =
      some (callOf body trail, (callTrees body trail).drop 3) := by
  have hname : textOf (consumed (callTrees body trail) (callTrees body trail).tail) = "Token" := by
    show textOf [.leaf ⟨.word, "Token", space, 0, 0⟩] = _
    decide
  rw [pathFuel, hname]
  rfl

theorem simpleTypeFuel_call (fuel : Nat) :
    simpleTypeFuel code (fuel + 2) (callTrees body trail) =
      some (callOf body trail, (callTrees body trail).drop 3) := by
  have hpath := pathFuel_call code body trail fuel
  rw [callTrees, simpleTypeFuel]
  exact hpath

theorem type_call :
    type code (callTrees body trail) = some (callOf body trail, (callTrees body trail).drop 3) := by
  have hbound : looseBound (callTrees body trail) = none := rfl
  have htype (fuel : Nat) : typeFuel code (fuel + 3) (callTrees body trail) =
      some (callOf body trail, (callTrees body trail).drop 3) := by
    rw [typeFuel, hbound, simpleTypeFuel_call]
    rfl
  exact htype _

end Grammar

/-! ## The text of the call -/

open Rust.Tree Lexeme

theorem tokensAll_map_leaf (toks : List Token) : tokensAll (toks.map leaf) = toks := by
  induction toks with
  | nil => rfl
  | cons t toks ih =>
    rw [List.map_cons, tokensAll, ih]
    rfl

/-- The characters in front of the layout. -/
def callHead : List Char := "type __Parsed = Token![".toList

theorem chars_callText (cs : List Char) :
    chars (bytesOf (typeText (callText cs))) = callHead ++ (cs ++ "];".toList) := by
  have hhead : callHead = aliasHead ++ "Token![".toList := rfl
  have hend : "];".toList = "]".toList ++ ";".toList := rfl
  have htext : (callText cs).toList = "Token![".toList ++ (cs ++ "]".toList) :=
    String.toList_ofList
  rw [chars_typeText, htext, hhead, hend, List.append_assoc, List.append_assoc, List.append_assoc]

/-- The lexemes in front of the layout. -/
def headLexemes : List Lexeme :=
  [⟨.word, "type".toList⟩, ⟨.blank, [' ']⟩, ⟨.word, "__Parsed".toList⟩, ⟨.blank, [' ']⟩,
    ⟨.mark, ['=']⟩, ⟨.blank, [' ']⟩, ⟨.word, "Token".toList⟩, ⟨.mark, ['!']⟩, ⟨.mark, ['[']⟩]

theorem run_headLexemes (after : List Char) : Run after headLexemes :=
  .cons (n := 4) rfl rfl <| .cons (n := 1) rfl rfl <| .cons (n := 8) rfl rfl <|
    .cons (n := 1) rfl rfl <| .cons (n := 1) rfl rfl <| .cons (n := 1) rfl rfl <|
      .cons (n := 5) rfl rfl <| .cons (n := 1) rfl rfl <| .cons (n := 1) rfl rfl .nil

theorem scan_callHead (cs : List Char) : scan (callHead ++ cs) = scanAfter 0 (callHead ++ cs) := by
  have hmark : markLength (callHead ++ cs) = 0 := rfl
  have hline : interpreterLength (callHead ++ cs) = 0 := rfl
  exact scan_eq_scanAfter hmark hline

theorem tokensAll_callTrees (toks : List Token) (trail : List Lexeme) :
    tokensAll (aliasOf (callTrees (toks.map leaf) trail)) =
      [⟨.word, "type", [], 0, 0⟩, ⟨.word, "__Parsed", space, 0, 0⟩, ⟨.mark, "=", space, 0, 0⟩,
        ⟨.word, "Token", space, 0, 0⟩, ⟨.mark, "!", [], 0, 0⟩, ⟨.mark, "[", [], 0, 0⟩] ++
      (toks ++ [⟨.mark, "]", trail, 0, 0⟩, ⟨.mark, ";", [], 0, 0⟩]) := by
  simp [aliasOf, callTrees, Token.ofWord, Token.ofMark, tokensAll, tokens, tokensAll_map_leaf]

theorem lexemesOf_callTrees (toks : List Token) (trail : List Lexeme) :
    lexemesOf (tokensAll (aliasOf (callTrees (toks.map leaf) trail))) =
      headLexemes ++ (lexemesOf toks ++ trail ++ [⟨.mark, [']']⟩, ⟨.mark, [';']⟩]) := by
  rw [tokensAll_callTrees, lexemesOf_append, lexemesOf_append, List.append_assoc (lexemesOf toks)]
  simp [lexemesOf, Token.lexemes, Token.lexeme, headLexemes, space]

theorem isProper_callTrees {toks : List Token} {trail : List Lexeme}
    (hproper : ∀ t ∈ toks, t.IsProper) (htrail : ∀ l ∈ trail, l.IsGap) :
    ∀ t ∈ tokensAll (aliasOf (callTrees (toks.map leaf) trail)), t.IsProper := by
  have hmember {kind : LexemeKind} {text : String} {gap : List Lexeme} (hgap : ∀ l ∈ gap, l.IsGap)
      (hkind : kind = .word ∨ kind = .mark) : (⟨kind, text, gap, 0, 0⟩ : Token).IsProper := by
    refine ⟨hgap, ?_⟩
    rcases hkind with rfl | rfl <;> rintro (h | h) <;> cases h
  rw [tokensAll_callTrees]
  refine List.forall_mem_append.mpr ⟨?_, List.forall_mem_append.mpr ⟨hproper, ?_⟩⟩
  · simp only [List.forall_mem_cons]
    exact ⟨hmember isGap_nil (.inl rfl), hmember isGap_space (.inl rfl),
      hmember isGap_space (.inr rfl), hmember isGap_space (.inl rfl), hmember isGap_nil (.inr rfl),
      hmember isGap_nil (.inr rfl), nofun⟩
  · simp only [List.forall_mem_cons]
    exact ⟨hmember htrail (.inr rfl), hmember isGap_nil (.inr rfl), nofun⟩

/-- The tokens of a layout are no delimiters. -/
theorem isGrouped_leaf_of_isLaid {t : Token} (h : t.lexeme.IsLaid) : (leaf t).IsGrouped := by
  refine .leaf fun hkind ↦ ?_
  have hmark := h
  rw [Token.lexeme, hkind] at hmark
  generalize htext : t.text.toList = text at hmark
  cases hmark with
  | @mark c hc =>
    have hall : operatorChars.all (fun d ↦ !isOpener (String.ofList [d]) &&
        (openerOf (String.ofList [d])).isNone) = true := by decide
    have hc := List.all_eq_true.mp hall c hc
    rw [← htext, String.ofList_toList, Bool.and_eq_true, Bool.not_eq_true',
      Option.isNone_iff_eq_none] at hc
    exact hc

/-- **The lexemes in front of the bracket are what the token macro is called on.** -/
theorem Grammar.parse_of_run {ls : List Lexeme} (hlaid : ∀ l ∈ ls, l.IsLaid)
    (hrun : ∀ t, Run (']' :: t) ls) : ∃ (i : Item) (g : Tree),
      Grammar.fileParser.parse (bytesOf (typeText (callText (flatten ls)))) = .ok [.item i] ∧
        i.body = .typeAlias (.macroCall "Token" g) ∧
          g.Encloses (String.ofList ((flatten ls).filter fun c ↦ !isSpace c)) := by
  obtain ⟨trail, hls, htrail, hproper, -⟩ :=
    @exists_of_placeFrom [] 0 [] ls isGap_nil _ rfl
  generalize placeFrom _ _ _ ls = toks at hls hproper
  rw [List.reverse_nil, List.nil_append] at hls
  subst hls
  have hlexeme (t : Token) (ht : t ∈ toks) : t.lexeme.IsLaid :=
    hlaid _ (List.mem_append_left _ (List.mem_flatMap.mpr ⟨t, ht, by simp [Token.lexemes]⟩))
  have hgrouped : ∀ t ∈ aliasOf (callTrees (toks.map leaf) trail), t.IsGrouped := by
    have hbody : ∀ t ∈ toks.map leaf, t.IsGrouped := by
      intro t ht
      obtain ⟨u, hu, rfl⟩ := List.mem_map.mp ht
      exact isGrouped_leaf_of_isLaid (hlexeme u hu)
    simp only [aliasOf, callTrees, List.forall_mem_cons]
    have hword {t : Token} (ht : t.kind = .word) : (leaf t).IsGrouped :=
      .leaf fun h ↦ absurd (h.symm.trans ht) (by decide)
    exact ⟨hword rfl, hword rfl, .leaf fun _ ↦ ⟨rfl, rfl⟩, hword rfl, .leaf fun _ ↦ ⟨rfl, rfl⟩,
      .group rfl rfl rfl rfl hbody, .leaf fun _ ↦ ⟨rfl, rfl⟩,
      fun _ h ↦ absurd h List.not_mem_nil⟩
  have hscan : scan (chars (bytesOf (typeText (callText (flatten (lexemesOf toks ++ trail)))))) =
      some (lexemesOf (tokensAll (aliasOf (callTrees (toks.map leaf) trail))) ++ []) := by
    have hmarks : Run [] [⟨.mark, [']']⟩, ⟨.mark, [';']⟩] :=
      .cons (n := 1) rfl rfl (.cons (n := 1) rfl rfl .nil)
    have hall := run_append.mpr ⟨run_headLexemes _, run_append.mpr ⟨hrun _, hmarks⟩⟩
    have hflat : flatten (headLexemes ++ (lexemesOf toks ++ trail ++
        [⟨.mark, [']']⟩, ⟨.mark, [';']⟩])) =
          callHead ++ (flatten (lexemesOf toks ++ trail) ++ "];".toList) := by
      rw [flatten_append, flatten_append]
      rfl
    rw [chars_callText, List.append_nil, lexemesOf_callTrees, scan_callHead]
    exact scanAfter_eq_some_iff.mpr ⟨hflat, hall⟩
  obtain ⟨ts, hts, hunplaced⟩ := trees?_of_scan hscan
    (isProper_callTrees hproper htrail) hgrouped isGap_nil
  have hread (code : Grammar.Code) := Grammar.type_call code (toks.map leaf) trail
  obtain ⟨i, hparse, hbody⟩ := Grammar.parse_of_type hts hunplaced hread
  obtain ⟨hkinds, htext⟩ := text_of_isLaid hlaid hproper htrail
  refine ⟨i, _, hparse, hbody, ?_⟩
  rw [← htext]
  exact encloses_joined hkinds _ _

/-- **The parser of the program gives the call of the token macro the tokens of the layout.** -/
theorem Grammar.readsCalls : Grammar.fileParser.ReadsCalls Lexeme.isSpace where
  isBlank _ := isBlank_of_isSpace
  reads es cs hes hlays hcomment := by
    obtain ⟨ls, rfl, hrun, hlaid⟩ := exists_run (hlays.isLayoutChar hes) hcomment
      (hlays.startsWords (fun _ ↦ isBlank_of_isSpace) hes)
    exact Grammar.parse_of_run hlaid hrun

end Rust
end NodeSchema
