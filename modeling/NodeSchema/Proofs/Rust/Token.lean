import NodeSchema.Proofs.Rust.Lexeme.Run
import NodeSchema.Proofs.Rust.Unplaced
import NodeSchema.Proofs.Text.Utf8

/-!
# Tokens and lexemes

Every token stands for its lexeme and the blanks and comments before it, so the lexemes of a text
are those of its tokens and what follows the last one (`exists_lexed`).  A text with these lexemes
has these tokens (`tokens?_of_scan`), apart from places.

Where a token begins and ends follows from the lexemes before it (`Placed.start`, `Placed.stop`),
and a token takes as many bytes as it is written in (`Lexed.stop_eq`).
-/

set_option autoImplicit false

namespace NodeSchema
namespace Rust

open Text Lexeme

/-! ## The lexemes of tokens -/

namespace Token

/-- The lexeme that a token is. -/
def lexeme (t : Token) : Lexeme := ⟨t.kind, t.text.toList⟩

/-- The lexeme of a token with those between it and the token before. -/
def lexemes (t : Token) : List Lexeme := t.gap ++ [t.lexeme]

/-- Blanks and comments stand before the token, and it is neither. -/
def IsProper (t : Token) : Prop := (∀ l ∈ t.gap, l.IsGap) ∧ ¬ t.lexeme.IsGap

end Token

/-- The lexemes of tokens with those between them. -/
def lexemesOf (ts : List Token) : List Lexeme := ts.flatMap Token.lexemes

theorem lexemesOf_cons (t : Token) (ts : List Token) :
    lexemesOf (t :: ts) = t.gap ++ t.lexeme :: lexemesOf ts := by
  rw [lexemesOf, List.flatMap_cons, Token.lexemes, List.append_assoc]
  rfl

theorem lexemesOf_append (ts us : List Token) :
    lexemesOf (ts ++ us) = lexemesOf ts ++ lexemesOf us :=
  List.flatMap_append

/-- Tokens lie where they should if the lexemes before the first of them reach up to the given
character. -/
def Placed (gs : List Glyph) : Nat → List Token → Prop
  | _, [] => True
  | n, t :: ts =>
    t.start = widthOf (n + (flatten t.gap).length) gs ∧
      t.stop = widthOf (n + (flatten t.lexemes).length) gs ∧
        Placed gs (n + (flatten t.lexemes).length) ts

theorem widthOf_add (gs : List Glyph) (m n : Nat) :
    widthOf (m + n) gs = widthOf m gs + widthOf n (gs.drop m) := by
  rw [widthOf, List.take_add, bytesIn_append]
  rfl

theorem placed_append {gs : List Glyph} {n : Nat} {ts us : List Token} :
    Placed gs n (ts ++ us) ↔
      Placed gs n ts ∧ Placed gs (n + (flatten (lexemesOf ts)).length) us := by
  induction ts generalizing n with
  | nil => exact ⟨fun h ↦ ⟨trivial, h⟩, fun h ↦ h.2⟩
  | cons t ts ih =>
    have hlength : n + (flatten (lexemesOf (t :: ts))).length =
        n + (flatten t.lexemes).length + (flatten (lexemesOf ts)).length := by
      rw [lexemesOf, List.flatMap_cons, flatten_append, List.length_append, Nat.add_assoc]
      rfl
    rw [List.cons_append, Placed, ih, Placed, hlength, and_assoc, and_assoc]

theorem length_flatten_concat (ls : List Lexeme) (l : Lexeme) :
    (flatten (ls ++ [l])).length = (flatten ls).length + l.text.length := by
  rw [flatten_append, List.length_append, flatten_cons, List.length_append]
  rfl

/-- The lexemes of a text are those of its tokens and those behind the last one. -/
theorem exists_of_placeFrom {gs : List Glyph} {n : Nat} {gap ls : List Lexeme}
    (hgap : ∀ l ∈ gap, l.IsGap) {toks : List Token}
    (h : placeFrom (widthOf (n + (flatten gap.reverse).length) gs) gap
      (gs.drop (n + (flatten gap.reverse).length)) ls = toks) :
    ∃ trail, gap.reverse ++ ls = lexemesOf toks ++ trail ∧ (∀ l ∈ trail, l.IsGap) ∧
      (∀ t ∈ toks, t.IsProper) ∧ Placed gs n toks := by
  induction ls generalizing n gap toks with
  | nil =>
    cases h
    refine ⟨gap.reverse, List.append_nil _, fun l hl ↦ hgap l (List.mem_reverse.mp hl), nofun,
      trivial⟩
  | cons l ls ih =>
    rw [placeFrom] at h
    simp only [← widthOf_add, List.drop_drop] at h
    split at h
    · next hl =>
      rw [Bool.or_eq_true, decide_eq_true_eq, decide_eq_true_eq] at hl
      have hlength : n + (flatten gap.reverse).length + l.text.length =
          n + (flatten (l :: gap).reverse).length := by
        rw [List.reverse_cons, length_flatten_concat, Nat.add_assoc]
      rw [hlength] at h
      obtain ⟨trail, hls, hrest⟩ := ih (List.forall_mem_cons.mpr ⟨hl, hgap⟩) h
      refine ⟨trail, ?_, hrest⟩
      rw [← hls, List.reverse_cons, List.append_assoc]
      rfl
    · next hl =>
      rw [Bool.or_eq_true, decide_eq_true_eq, decide_eq_true_eq] at hl
      have hlexeme (start stop : Nat) :
          (⟨l.kind, String.ofList l.text, gap.reverse, start, stop⟩ : Token).lexeme = l := by
        rw [Token.lexeme, String.toList_ofList]
      obtain ⟨trail, hls, htrail, hproper, hplaced⟩ :=
        ih (n := n + (flatten gap.reverse).length + l.text.length) isGap_nil rfl
      subst h
      refine ⟨trail, ?_, htrail, ?_, ?_⟩
      · rw [lexemesOf_cons, hlexeme, List.append_assoc, List.cons_append]
        exact congrArg (fun ls ↦ gap.reverse ++ l :: ls) hls
      · refine List.forall_mem_cons.mpr ⟨⟨fun l hl ↦ hgap l (List.mem_reverse.mp hl), ?_⟩, hproper⟩
        rw [hlexeme]
        exact hl
      · rw [Placed, Token.lexemes, hlexeme, length_flatten_concat, ← Nat.add_assoc]
        exact ⟨rfl, rfl, hplaced⟩

/-- The lexemes of a text are those of the tokens and the blanks and comments behind the last
one. -/
structure Lexed (bytes : List UInt8) (toks : List Token) (trail : List Lexeme) : Prop where
  scan : scan (chars bytes) = some (lexemesOf toks ++ trail)
  gap : ∀ l ∈ trail, l.IsGap
  proper : ∀ t ∈ toks, t.IsProper
  placed : Placed (decode bytes) 0 toks

/-- **The lexemes of a text are those of its tokens**, and what stands behind the last one. -/
theorem exists_lexed {bytes : List UInt8} {toks : List Token} (h : tokens? bytes = some toks) :
    ∃ trail, Lexed bytes toks trail := by
  obtain ⟨ls, hls, rfl⟩ := Option.map_eq_some_iff.mp h
  obtain ⟨trail, hall, htrail, hproper, hplaced⟩ :=
    exists_of_placeFrom (n := 0) isGap_nil rfl
  exact ⟨trail, hls.trans (congrArg some hall), htrail, hproper, hplaced⟩

theorem placeFrom_append_gap (offset : Nat) (gs : List Glyph) (before : List Lexeme)
    {gap : List Lexeme} (hgap : ∀ l ∈ gap, l.IsGap) (ls : List Lexeme) :
    ∃ offset' gs', placeFrom offset before gs (gap ++ ls) =
      placeFrom offset' (gap.reverse ++ before) gs' ls := by
  induction gap generalizing offset gs before with
  | nil => exact ⟨offset, gs, rfl⟩
  | cons l gap ih =>
    obtain ⟨hl, hgap⟩ := List.forall_mem_cons.mp hgap
    obtain ⟨offset', gs', h⟩ := ih (offset + widthOf l.text.length gs) (gs.drop l.text.length)
      (l :: before) hgap
    refine ⟨offset', gs', ?_⟩
    rw [List.cons_append, placeFrom, if_pos (by simpa [Lexeme.IsGap] using hl), h,
      List.reverse_cons, List.append_assoc]
    rfl

/-- Tokens are found again among their lexemes. -/
theorem placeFrom_lexemesOf (offset : Nat) (gs : List Glyph) {toks : List Token}
    {trail : List Lexeme} (htoks : ∀ t ∈ toks, t.IsProper) (htrail : ∀ l ∈ trail, l.IsGap) :
    (placeFrom offset [] gs (lexemesOf toks ++ trail)).map Token.unplaced =
      toks.map Token.unplaced := by
  induction toks generalizing offset gs with
  | nil =>
    obtain ⟨offset', gs', h⟩ := placeFrom_append_gap offset gs [] htrail []
    rw [List.append_nil] at h
    rw [show lexemesOf [] ++ trail = trail from rfl, h]
    rfl
  | cons t toks ih =>
    obtain ⟨⟨hgap, hlexeme⟩, htoks⟩ := List.forall_mem_cons.mp htoks
    obtain ⟨offset', gs', h⟩ := placeFrom_append_gap offset gs [] hgap
      (t.lexeme :: (lexemesOf toks ++ trail))
    rw [lexemesOf_cons, List.append_assoc, List.cons_append, h, placeFrom,
      if_neg (by simpa [Lexeme.IsGap] using hlexeme), List.map_cons, List.map_cons, ih _ _ htoks,
      List.append_nil, List.reverse_reverse]
    refine congrArg (· :: _) ?_
    rw [Token.lexeme, Token.unplaced, Token.unplaced, String.ofList_toList]

theorem tokens?_of_scan {bytes : List UInt8} {toks : List Token} {trail : List Lexeme}
    (h : scan (chars bytes) = some (lexemesOf toks ++ trail)) (htoks : ∀ t ∈ toks, t.IsProper)
    (htrail : ∀ l ∈ trail, l.IsGap) :
    ∃ toks', tokens? bytes = some toks' ∧ toks'.map Token.unplaced = toks.map Token.unplaced :=
  ⟨_, by rw [tokens?]; exact congrArg _ h, placeFrom_lexemesOf 0 _ htoks htrail⟩

/-! ## Places -/

section Places

variable {source : Source} {pre us xs : List Token} {o x : Token} {trail : List Lexeme}

theorem Lexed.run (h : Lexed source.bytes (pre ++ o :: us) trail) (ho : o.kind = .mark) :
    Run [] (lexemesOf us ++ trail) := by
  have hscan := h.scan
  rw [lexemesOf_append, lexemesOf_cons, List.append_assoc, List.append_assoc, ← List.append_assoc,
    List.cons_append] at hscan
  exact (run_cons.mp (run_of_scan hscan ho)).2

theorem Placed.start {gs : List Glyph} {n : Nat} (h : Placed gs n (us ++ x :: xs)) :
    x.start = widthOf (n + (flatten (lexemesOf us ++ x.gap)).length) gs := by
  rw [flatten_append, List.length_append, ← Nat.add_assoc]
  exact (placed_append.mp h).2.1

theorem Placed.stop {gs : List Glyph} {n : Nat} (h : Placed gs n (us ++ x :: xs)) :
    x.stop = widthOf (n + (flatten (lexemesOf us ++ x.lexemes)).length) gs := by
  rw [flatten_append, List.length_append, ← Nat.add_assoc]
  exact (placed_append.mp h).2.2.1

/-- A token whose characters all are as they were written takes as many bytes as they are written
in. -/
theorem Lexed.stop_eq (h : Lexed source.bytes (us ++ x :: xs) trail)
    (hx : ∀ c ∈ x.text.toList, c ≠ replacement) : x.stop = x.start + (bytesOf x.text).length := by
  have hflat := flatten_scan h.scan
  have hrest : lexemesOf (us ++ x :: xs) ++ trail =
      lexemesOf us ++ x.gap ++ (x.lexeme :: (lexemesOf xs ++ trail)) := by
    simp only [lexemesOf_append, lexemesOf_cons, List.append_assoc, List.cons_append]
  rw [hrest, flatten_append, flatten_cons] at hflat
  rw [h.placed.stop, h.placed.start, Token.lexemes, ← List.append_assoc, length_flatten_concat,
    ← Nat.add_assoc, widthOf_add, Nat.zero_add]
  generalize flatten (lexemesOf us ++ x.gap) = before at hflat ⊢
  refine congrArg _ ?_
  have hchars : (((decode source.bytes).drop before.length).take x.text.toList.length).map
      Glyph.char = x.text.toList := by
    rw [List.map_take, List.map_drop]
    show ((chars source.bytes).drop _).take _ = _
    rw [← hflat, List.drop_left, Token.lexeme, List.take_left]
  have hmem : ∀ g ∈ ((decode source.bytes).drop before.length).take x.text.toList.length,
      g ∈ decode source.bytes := fun g hg ↦ List.mem_of_mem_drop (List.mem_of_mem_take hg)
  have hne : ∀ g ∈ ((decode source.bytes).drop before.length).take x.text.toList.length,
      g.char ≠ replacement := by
    intro g hg
    refine hx g.char ?_
    rw [← hchars]
    exact List.mem_map_of_mem hg
  rw [widthOf, bytesOf, ← hchars]
  exact bytesIn_of_mem_decode hmem hne

end Places

end Rust
end NodeSchema
