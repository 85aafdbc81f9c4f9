import Mathlib.Data.Bool.AllAny
import NodeSchema.Proofs.Layout.Basic
import NodeSchema.Proofs.Rust.Grouping
import NodeSchema.Proofs.Rust.TypeTree

/-!
# Trees that are written down

`Spelled ts cs` says that trees are written as the given characters, wherever something stands
behind them that ends tokens.  Trees are put together from words (`spelled_word`), marks
(`Spelled.mark`) and delimiters (`Spelled.group`), each with at most a blank in front of it, and one
after the other (`Spelled.append`).  A text that is spelled has the trees that it is spelled as
(`Spelled.exists_trees_of_mark`).
-/

set_option autoImplicit false

namespace NodeSchema
namespace Rust

open Text Lexeme Rust.Tree

/-! ## Tokens -/

/-- A space between tokens. -/
def space : List Lexeme := [⟨.blank, [' ']⟩]

theorem isGap_space : ∀ l ∈ space, l.IsGap :=
  List.forall_mem_singleton.mpr (.inl rfl)

/-- Behind a word or a mark, the character begins something new. -/
def EndsToken (d : Char) : Prop := EndsWord d ∧ d ∉ ['/', '*']

instance : DecidablePred EndsToken := fun _ ↦ instDecidableAnd

/-- A word with lexemes before it. -/
def Token.ofWord (gap : List Lexeme) (text : String) : Token := ⟨.word, text, gap, 0, 0⟩

/-- A punctuation character with lexemes before it. -/
def Token.ofMark (gap : List Lexeme) (c : Char) : Token := ⟨.mark, String.singleton c, gap, 0, 0⟩

/-- Nothing, or a single blank. -/
def IsBlankGap (gap : List Lexeme) : Prop :=
  gap = [] ∨ ∃ c, isSpace c = true ∧ gap = [⟨.blank, [c]⟩]

theorem isBlankGap_nil : IsBlankGap [] := .inl rfl

theorem isBlankGap_space : IsBlankGap space := .inr ⟨' ', rfl, rfl⟩

namespace IsBlankGap

variable {gap : List Lexeme} (h : IsBlankGap gap)
include h

theorem isGap : ∀ l ∈ gap, l.IsGap := by
  obtain rfl | ⟨c, -, rfl⟩ := h
  · exact isGap_nil
  · exact List.forall_mem_singleton.mpr (.inl rfl)

theorem run {after : List Char} (hafter : ∀ d ∈ after.head?, isSpace d = false) :
    Run after gap := by
  obtain rfl | ⟨c, hc, rfl⟩ := h
  · exact .nil
  · exact run_blank hc hafter

end IsBlankGap

theorem isProper_ofMark {gap : List Lexeme} (hgap : IsBlankGap gap) (c : Char) :
    (Token.ofMark gap c).IsProper := by
  refine ⟨hgap.isGap, ?_⟩
  rintro (hkind | hkind) <;> cases hkind

theorem lexeme_ofMark (gap : List Lexeme) (c : Char) :
    (Token.ofMark gap c).lexeme = ⟨.mark, [c]⟩ := by
  rw [Token.lexeme, Token.ofMark, String.toList_singleton]

/-! ## Marks -/

/-- The mark is cut off by itself and is no delimiter. -/
def IsPlainMark (c : Char) : Prop :=
  IsLoneMark c ∧ c ∉ ['(', ')', '[', ']', '\x7b', '\x7d']

instance : DecidablePred IsPlainMark := fun _ ↦ instDecidableAnd

theorem IsPlainMark.isLeaf {c : Char} (h : IsPlainMark c) :
    isOpener (String.singleton c) = false ∧ openerOf (String.singleton c) = none := by
  obtain ⟨⟨hmark, hslash⟩, hdelimiter⟩ := h
  have hall : ∀ c ∈ ['+', '-', '*', '/', '%', '^', '!', '&', '|', '=', '<', '>', '@', '.', ',', ';',
      ':', '#', '$', '?', '\'', '(', ')', '[', ']', '\x7b', '\x7d'],
      c ∉ ['(', ')', '[', ']', '\x7b', '\x7d'] →
        isOpener (String.singleton c) = false ∧ openerOf (String.singleton c) = none :=
    List.all_iff_forall_prop.mp (by decide)
  exact hall c (List.contains_iff_mem.mp hmark) hdelimiter

/-- The delimiters match. -/
def IsPair (o c : Char) : Prop := (o, c) ∈ [('(', ')'), ('[', ']'), ('\x7b', '\x7d')]

instance (o c : Char) : Decidable (IsPair o c) := List.instDecidableMemOfLawfulBEq ..

theorem IsPair.isDelimiters {o c : Char} (h : IsPair o c) : IsLoneMark o ∧ IsLoneMark c ∧
    isOpener (String.singleton o) = true ∧
      openerOf (String.singleton c) = some (String.singleton o) := by
  have hall : ∀ p ∈ [('(', ')'), ('[', ']'), ('\x7b', '\x7d')], IsLoneMark p.1 ∧ IsLoneMark p.2 ∧
      isOpener (String.singleton p.1) = true ∧
        openerOf (String.singleton p.2) = some (String.singleton p.1) :=
    List.all_iff_forall_prop.mp (by decide)
  exact hall (o, c) h

theorem endsToken_of_isSpace {c : Char} (h : isSpace c = true) : EndsToken c := by
  have hall : ∀ c ∈ ['#', '"', '\'', '/', '*'], isSpace c = false :=
    List.all_iff_forall_prop.mp (by decide)
  have hne {cs : List Char} (hcs : cs ⊆ ['#', '"', '\'', '/', '*']) : c ∉ cs := by
    intro hc
    rw [hall c (hcs hc)] at h
    cases h
  exact ⟨⟨isIdentContinue_of_isBlank (isBlank_of_isSpace h), hne (by decide)⟩, hne (by decide)⟩

/-- What stands in front of a closing delimiter ends tokens. -/
theorem IsBlankGap.exists_endsToken {gap : List Lexeme} (h : IsBlankGap gap) {o c : Char}
    (hpair : IsPair o c) : ∃ d rest, EndsToken d ∧ flatten (gap ++ [⟨.mark, [c]⟩]) = d :: rest := by
  obtain rfl | ⟨b, hb, rfl⟩ := h
  · have hall : ∀ p ∈ [('(', ')'), ('[', ']'), ('\x7b', '\x7d')], EndsToken p.2 :=
      List.all_iff_forall_prop.mp (by decide)
    exact ⟨c, [], hall (o, c) hpair, rfl⟩
  · exact ⟨b, [c], endsToken_of_isSpace hb, rfl⟩

/-! ## Spelled trees -/

/-- The delimiters of the tree match, and its tokens have blanks and comments before them. -/
structure Tree.IsSound (t : Tree) : Prop where
  grouped : t.IsGrouped
  proper : ∀ u ∈ t.tokens, u.IsProper

theorem Tree.isSound_word {t : Token} (hkind : t.kind = .word) (hgap : ∀ l ∈ t.gap, l.IsGap) :
    (Tree.leaf t).IsSound := by
  refine ⟨.leaf ?_, List.forall_mem_singleton.mpr ⟨hgap, ?_⟩⟩
  · rw [hkind]
    exact fun h ↦ LexemeKind.noConfusion h
  · rw [Token.lexeme, Lexeme.IsGap, hkind]
    rintro (h | h) <;> cases h

/-- The trees are written as the characters, in front of whatever ends tokens. -/
structure Spelled (ts : List Tree) (cs : List Char) : Prop where
  sound : ∀ t ∈ ts, t.IsSound
  chars : flatten (lexemesOf (tokensAll ts)) = cs
  run : ∀ d after, EndsToken d → Run (d :: after) (lexemesOf (tokensAll ts))

theorem spelled_nil : Spelled [] [] := ⟨fun _ h ↦ absurd h List.not_mem_nil, rfl, fun _ _ _ ↦ .nil⟩

theorem isSpace_of_isIdentStart {c : Char} (h : isIdentStart c = true) : isSpace c = false := by
  have hle := le_toNat_of_isIdentStart h
  refine Bool.eq_false_iff.mpr fun hspace ↦ ?_
  rw [isSpace, Bool.or_eq_true, Bool.and_eq_true] at hspace
  rcases hspace with hspace | ⟨-, hspace⟩
  · rw [of_decide_eq_true hspace] at hle
    exact absurd hle (by decide)
  · have := of_decide_eq_true hspace
    omega

theorem isSpace_of_measure {c : Char} {rest : List Char} {kind : LexemeKind} {n : Nat}
    (h : Lexeme.measure c rest = some (kind, n)) (hkind : kind ≠ .blank) : isSpace c = false := by
  by_cases hspace : isSpace c = true
  · rw [Lexeme.measure, if_pos hspace] at h
    exact (hkind (Prod.mk.inj (Option.some.inj h)).1.symm).elim
  · exact Bool.not_eq_true _ ▸ hspace

theorem isSpace_of_isLoneMark {c : Char} (h : IsLoneMark c) : isSpace c = false :=
  isSpace_of_measure (measure_of_isLoneMark h []) (by decide)

/-- A word by itself. -/
theorem spelled_word {gap : List Lexeme} (hgap : IsBlankGap gap) {text : String}
    (h : IsWord text) : Spelled [.leaf (.ofWord gap text)] (flatten gap ++ text.toList) := by
  obtain ⟨c, u, htext, hc, hu⟩ := h
  have hlexemes : lexemesOf (tokensAll [.leaf (.ofWord gap text)]) =
      gap ++ [⟨.word, c :: u⟩] := by
    show lexemesOf [Token.ofWord gap text] = _
    rw [lexemesOf_cons, Token.lexeme, Token.ofWord, htext]
    rfl
  refine ⟨List.forall_mem_singleton.mpr (isSound_word rfl hgap.isGap), ?_, fun d after hd ↦ ?_⟩
  · rw [hlexemes, flatten_append, htext]
    exact congrArg (flatten gap ++ ·) (List.append_nil _)
  · rw [hlexemes]
    refine run_append.mpr ⟨hgap.run ?_, run_word hc (.inl hu) hd.1 after⟩
    exact fun x hx ↦ Option.some.inj hx ▸ isSpace_of_isIdentStart hc

namespace Spelled

variable {ts us : List Tree} {cs ds : List Char}

/-- Trees after others. -/
theorem append (h : Spelled ts cs) (h' : Spelled us ds) (hds : ∀ d ∈ ds.head?, EndsToken d) :
    Spelled (ts ++ us) (cs ++ ds) := by
  refine ⟨List.forall_mem_append.mpr ⟨h.sound, h'.sound⟩, ?_, fun x after hx ↦ ?_⟩
  · rw [tokensAll_append, lexemesOf_append, flatten_append, h.chars, h'.chars]
  · rw [tokensAll_append, lexemesOf_append, run_append, h'.chars]
    refine ⟨?_, h'.run x after hx⟩
    cases ds with
    | nil => exact h.run x after hx
    | cons d ds => exact h.run d _ (hds d rfl)

/-- A word in front of trees. -/
theorem word (h : Spelled us ds) {gap : List Lexeme} (hgap : IsBlankGap gap) {text : String}
    (htext : IsWord text) (hds : ∀ d ∈ ds.head?, EndsToken d) :
    Spelled (.leaf (.ofWord gap text) :: us) (flatten gap ++ (text.toList ++ ds)) := by
  rw [← List.append_assoc]
  exact (spelled_word hgap htext).append h hds

/-- A mark in front of trees. -/
theorem mark (h : Spelled us ds) {gap : List Lexeme} (hgap : IsBlankGap gap) {c : Char}
    (hc : IsPlainMark c) : Spelled (.leaf (.ofMark gap c) :: us) (flatten gap ++ c :: ds) := by
  have hlexemes : lexemesOf (tokensAll (.leaf (.ofMark gap c) :: us)) =
      gap ++ ⟨.mark, [c]⟩ :: lexemesOf (tokensAll us) := by
    rw [← lexeme_ofMark gap c]
    exact lexemesOf_cons ..
  refine ⟨List.forall_mem_cons.mpr ⟨⟨.leaf fun _ ↦ hc.isLeaf, ?_⟩, h.sound⟩, ?_,
    fun d after hd ↦ ?_⟩
  · exact List.forall_mem_singleton.mpr (isProper_ofMark hgap c)
  · rw [hlexemes, flatten_append, flatten_cons, h.chars]
    rfl
  · rw [hlexemes]
    refine run_append.mpr ⟨hgap.run ?_, run_cons.mpr ⟨run_mark hc.1 _, h.run d after hd⟩⟩
    exact fun x hx ↦ Option.some.inj hx ▸ isSpace_of_isLoneMark hc.1

/-- Trees between delimiters. -/
theorem group (h : Spelled us ds) {gap trail : List Lexeme} (hgap : IsBlankGap gap)
    (htrail : IsBlankGap trail) {o c : Char} (hpair : IsPair o c) :
    Spelled [.group (.ofMark gap o) us (.ofMark trail c)]
      (flatten gap ++ o :: (ds ++ (flatten trail ++ [c]))) := by
  obtain ⟨ho, hc, hisOpener, hisCloser⟩ := hpair.isDelimiters
  have hlexemes : lexemesOf (tokensAll [.group (.ofMark gap o) us (.ofMark trail c)]) =
      gap ++ ⟨.mark, [o]⟩ :: (lexemesOf (tokensAll us) ++ (trail ++ [⟨.mark, [c]⟩])) := by
    show lexemesOf (Token.ofMark gap o :: (tokensAll us ++ [Token.ofMark trail c] ++ [])) = _
    rw [List.append_nil, lexemesOf_cons, lexemesOf_append, lexemesOf_cons, lexeme_ofMark,
      lexeme_ofMark]
    rfl
  have hsound : (Tree.group (.ofMark gap o) us (.ofMark trail c)).IsSound := by
    refine ⟨.group rfl rfl hisOpener hisCloser fun t ht ↦ (h.sound t ht).grouped, ?_⟩
    refine List.forall_mem_cons.mpr ⟨isProper_ofMark hgap o, List.forall_mem_append.mpr
      ⟨fun u hu ↦ ?_, List.forall_mem_singleton.mpr (isProper_ofMark htrail c)⟩⟩
    obtain ⟨t, ht, hu⟩ := exists_mem_of_mem_tokensAll hu
    exact (h.sound t ht).proper u hu
  refine ⟨List.forall_mem_singleton.mpr hsound, ?_, fun d after hd ↦ ?_⟩
  · rw [hlexemes, flatten_append, flatten_cons, flatten_append, h.chars, flatten_append]
    rfl
  · have hend : Run (d :: after) (trail ++ [⟨.mark, [c]⟩]) := by
      refine run_append.mpr ⟨htrail.run fun x hx ↦ ?_, run_mark hc _⟩
      exact Option.some.inj hx ▸ isSpace_of_isLoneMark hc
    have hinner : Run (flatten (trail ++ [⟨.mark, [c]⟩]) ++ d :: after)
        (lexemesOf (tokensAll us)) := by
      obtain ⟨x, rest, hx, hrest⟩ := htrail.exists_endsToken hpair
      rw [hrest, List.cons_append]
      exact h.run x _ hx
    rw [hlexemes]
    refine run_append.mpr ⟨hgap.run fun x hx ↦ ?_, run_cons.mpr ⟨run_mark ho _,
      run_append.mpr ⟨hinner, hend⟩⟩⟩
    exact Option.some.inj hx ▸ isSpace_of_isLoneMark ho

/-- A text that is cut into the lexemes of trees has these trees, apart from places. -/
theorem exists_trees_of_run (h : Spelled ts cs) {bytes : List UInt8} {trail : List Lexeme}
    (hgap : ∀ l ∈ trail, l.IsGap) (hrun : Run [] (lexemesOf (tokensAll ts) ++ trail))
    (hchars : Text.chars bytes = cs ++ flatten trail) (hmark : markLength (cs ++ flatten trail) = 0)
    (hline : interpreterLength (cs ++ flatten trail) = 0) :
    ∃ ts', trees? bytes = some ts' ∧ ts'.map unplaced = ts.map unplaced := by
  have hscan : scan (Text.chars bytes) = some (lexemesOf (tokensAll ts) ++ trail) := by
    rw [hchars, scan_eq_scanAfter hmark hline]
    refine scanAfter_eq_some_iff.mpr ⟨?_, hrun⟩
    rw [flatten_append, h.chars]
  refine trees?_of_scan hscan (fun t ht ↦ ?_) (fun t ht ↦ (h.sound t ht).grouped) hgap
  obtain ⟨u, hu, ht⟩ := exists_mem_of_mem_tokensAll ht
  exact (h.sound u hu).proper t ht

/-- A text may also end with a mark. -/
theorem exists_trees_of_mark (h : Spelled ts cs) {bytes : List UInt8} {c : Char}
    (hc : IsPlainMark c) (hends : EndsToken c) (hchars : Text.chars bytes = cs ++ [c])
    (hmark : markLength (cs ++ [c]) = 0) (hline : interpreterLength (cs ++ [c]) = 0) :
    ∃ ts', trees? bytes = some ts' ∧
      ts'.map unplaced = (ts ++ [Tree.leaf (.ofMark [] c)]).map unplaced := by
  have hlast : Spelled [.leaf (.ofMark [] c)] [c] := spelled_nil.mark isBlankGap_nil hc
  have hall : Spelled (ts ++ [.leaf (.ofMark [] c)]) (cs ++ [c]) :=
    h.append hlast fun d hd ↦ Option.some.inj hd ▸ hends
  have hlexemes : lexemesOf (tokensAll [Tree.leaf (.ofMark [] c)]) = [⟨.mark, [c]⟩] := by
    rw [← lexeme_ofMark [] c]
    exact lexemesOf_cons ..
  have hrun : Run [] (lexemesOf (tokensAll (ts ++ [.leaf (.ofMark [] c)])) ++ []) := by
    rw [List.append_nil, tokensAll_append, lexemesOf_append, hlexemes]
    exact run_append.mpr ⟨h.run c [] hends, run_mark hc.1 []⟩
  rw [← List.append_nil (cs ++ [c])] at hchars hmark hline
  exact hall.exists_trees_of_run isGap_nil hrun hchars hmark hline

end Spelled
end Rust
end NodeSchema
