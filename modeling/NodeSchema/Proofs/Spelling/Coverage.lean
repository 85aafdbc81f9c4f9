import Mathlib.Logic.ExistsUnique
import NodeSchema.Proofs.Spelling.Gap

/-!
# What the lexemes of a spelling file leave out

The lexemes of a text come in order, each where it stands in the text, and what is left out between
them is blanks and comments (`Tiles`, `tiles_scanAfter`).  What a comment is, is said here without
the lexer: `Comment` tells where one ends, and `measureComment_eq_some_iff` that the lexer agrees.

* `Tiles.exists_append` — a lexeme is the slice of the text at its offset;
* `Tiles.pairwise` — lexemes do not overlap;
* `Tiles.exists_gap` — what stands in front of, between and behind lexemes;
* `Tiles.covers` — every character belongs to a lexeme, or it is blank or in a comment;
* `lexemes_cover` — all of this for the lexemes of any text, whatever does not end in it.
-/

set_option autoImplicit false

namespace NodeSchema
namespace Spelling

open Text

variable {c : Char} {u v w rest front gap cs : List Char} {l : Lexeme} {ls : List Lexeme}

/-! ## Comments -/

/-- A comment in front of `rest`.  A line comment goes on to the end of its line, and a block
comment to its first `*/`. -/
inductive Comment : List Char → List Char → Prop
  | line {body rest : List Char} (h : '\n' ∉ body) (hrest : ∀ c ∈ rest.head?, c = '\n') :
      Comment ('/' :: '/' :: body) rest
  | block {body rest : List Char} (h : ¬ ['*', '/'] <:+: body ++ ['*']) :
      Comment ('/' :: '*' :: (body ++ ['*', '/'])) rest

theorem isInfix_cons_iff {c : Char} {u : List Char} :
    ['*', '/'] <:+: c :: u ↔ (c = '*' ∧ u.head? = some '/') ∨ ['*', '/'] <:+: u := by
  rw [List.infix_cons_iff]
  refine or_congr ?_ Iff.rfl
  cases u with
  | nil => simp [List.cons_prefix_cons]
  | cons d u => simp [List.cons_prefix_cons, eq_comm]

/-- A block comment goes on to its first `*/`. -/
theorem commentTail_eq_some_iff {n : Nat} : commentTail cs = some n ↔
    ∃ body rest, cs = body ++ '*' :: '/' :: rest ∧ n = body.length + 2 ∧
      ¬ ['*', '/'] <:+: body ++ ['*'] := by
  fun_induction commentTail cs generalizing n with
  | case1 tail =>
    constructor
    · intro h
      exact ⟨[], tail, rfl, (Option.some.inj h).symm, by decide⟩
    · rintro ⟨body, rest, hcs, rfl, hbody⟩
      cases body with
      | nil => rfl
      | cons d body =>
        obtain ⟨rfl, htail⟩ := List.cons.inj hcs
        refine absurd (isInfix_cons_iff.mpr (.inl ⟨rfl, ?_⟩)) hbody
        cases body with
        | nil => exact absurd (List.cons.inj htail).1 (by decide)
        | cons e body => exact congrArg some (List.cons.inj htail).1.symm
  | case2 d tail hstart ih =>
    have hcons (body : List Char) : ¬ ['*', '/'] <:+: body ++ ['*'] →
        tail.head? = (body ++ ['*']).head? → ¬ ['*', '/'] <:+: d :: body ++ ['*'] := by
      intro hbody hhead hinfix
      rcases isInfix_cons_iff.mp hinfix with ⟨rfl, hslash⟩ | hinfix
      · obtain ⟨tail, rfl⟩ := List.head?_eq_some_iff.mp (hhead.trans hslash)
        exact hstart tail rfl rfl
      · exact hbody hinfix
    rw [Option.map_eq_some_iff]
    constructor
    · rintro ⟨m, hm, rfl⟩
      obtain ⟨body, rest, rfl, rfl, hbody⟩ := ih.mp hm
      refine ⟨d :: body, rest, rfl, by simp, hcons body hbody ?_⟩
      cases body <;> rfl
    · rintro ⟨body, rest, hcs, rfl, hbody⟩
      cases body with
      | nil => exact (hstart rest (List.cons.inj hcs).1 (List.cons.inj hcs).2).elim
      | cons e body =>
        obtain ⟨rfl, rfl⟩ := List.cons.inj hcs
        refine ⟨_, ih.mpr ⟨body, rest, rfl, rfl, fun h ↦ hbody ?_⟩, by simp⟩
        exact isInfix_cons_iff.mpr (.inr h)
  | case3 => simp

theorem length_takeWhile_append_iff (p : Char → Bool) :
    ((u ++ rest).takeWhile p).length = u.length ↔
      (∀ c ∈ u, p c = true) ∧ ∀ c ∈ rest.head?, p c = false := by
  induction u with
  | nil => cases rest <;> simp [List.takeWhile_cons]
  | cons c u ih =>
    by_cases hc : p c = true
    · simp [hc, ih]
    · simp [hc]

/-- **A comment is cut off where it ends.** -/
theorem measureComment_eq_some_iff {kind : PieceKind} :
    measureComment c (u ++ rest) = some (kind, u.length + 1) ↔
      kind = .comment ∧ Comment (c :: u) rest := by
  constructor
  · intro h
    refine ⟨kind_of_measureComment h, ?_⟩
    rw [measureComment.eq_def] at h
    split at h
    · next more hmore =>
      have hlength := (Prod.mk.inj (Option.some.inj h)).2
      cases u with
      | nil =>
        rw [List.length_nil] at hlength
        omega
      | cons d body =>
        obtain ⟨rfl, rfl⟩ := List.cons.inj hmore
        have htake : ((body ++ rest).takeWhile (· ≠ '\n')).length = body.length := by
          change 2 + ((body ++ rest).takeWhile (· ≠ '\n')).length = _ at hlength
          rw [List.length_cons] at hlength
          omega
        obtain ⟨hbody, hrest⟩ := (length_takeWhile_append_iff _).mp htake
        exact .line (fun hmem ↦ by simpa using hbody _ hmem) (by simpa using hrest)
    · next more hmore =>
      obtain ⟨m, hm, heq⟩ := Option.map_eq_some_iff.mp h
      obtain ⟨body, tail, rfl, rfl, hbody⟩ := commentTail_eq_some_iff.mp hm
      have hlength := (Prod.mk.inj heq).2
      cases u with
      | nil => simp at hlength
      | cons d v =>
        obtain ⟨rfl, hv⟩ := List.cons.inj hmore
        have hsplit : v ++ rest = (body ++ ['*', '/']) ++ tail := by simpa using hv
        obtain ⟨rfl, -⟩ := List.append_inj hsplit (by simpa using hlength.symm)
        exact .block hbody
    · cases h
  · rintro ⟨rfl, h⟩
    cases h with
    | @line body rest h hrest =>
      have htake : ((body ++ rest).takeWhile (· ≠ '\n')).length = body.length := by
        refine (length_takeWhile_append_iff _).mpr ⟨fun d hd ↦ ?_, by simpa using hrest⟩
        exact decide_eq_true fun hline ↦ h (hline ▸ hd)
      rw [List.cons_append, measureComment, htake, List.length_cons, Nat.add_comm]
    | @block body rest h =>
      have htail : commentTail (body ++ ['*', '/'] ++ rest) = some (body.length + 2) :=
        commentTail_eq_some_iff.mpr ⟨body, rest, by simp, rfl, h⟩
      rw [List.cons_append, measureComment, htail]
      simp

/-! ## Pieces -/

/-- A lexeme may begin with the characters: they begin with no blank and with no comment. -/
def BeginsLexeme (cs : List Char) : Prop :=
  (∀ c ∈ cs.head?, isBlank c = false) ∧ ∀ u v, cs = u ++ v → ¬ Comment u v

theorem isTrivia_of_measureQuoted {piece : PieceKind × Nat}
    (h : measureQuoted c rest = some piece) :
    piece.1.isTrivia = false := by
  rw [measureQuoted.eq_def] at h
  split at h
  all_goals first | cases h | obtain ⟨_, -, rfl⟩ := Option.map_eq_some_iff.mp h; rfl

theorem isTrivia_of_measureWord {piece : PieceKind × Nat} (h : measureWord c rest = some piece) :
    piece.1.isTrivia = false := by
  rw [measureWord.eq_def] at h
  split at h
  · split at h <;> cases h
    rfl
  · split at h <;> cases h <;> rfl
  · split at h
    · cases h
      rfl
    · split at h <;> cases h
      rfl

theorem isTrivia_of_measure (hblank : isBlank c = false) (hcomment : measureComment c rest = none) :
    (measure c rest).1.isTrivia = false := by
  rw [measure, if_neg (by simp [hblank]), hcomment, Option.none_or]
  cases hquoted : measureQuoted c rest with
  | some piece => exact isTrivia_of_measureQuoted hquoted
  | none =>
    rw [Option.none_or]
    cases hword : measureWord c rest with
    | some piece => exact isTrivia_of_measureWord hword
    | none => rfl

/-- A piece is left out if it is made of blanks, or if it is a comment. -/
theorem trivia_of_measure {kind : PieceKind} (h : measure c (u ++ rest) = (kind, u.length + 1))
    (hkind : kind.isTrivia = true) :
    (∀ d ∈ c :: u, isBlank d = true) ∨ Comment (c :: u) rest := by
  cases hblank : isBlank c with
  | true =>
    rw [measure, if_pos hblank] at h
    have hlength := (Prod.mk.inj h).2
    rw [Nat.add_comm, Nat.add_right_cancel_iff, length_takeWhile_append_iff] at hlength
    exact .inl (List.forall_mem_cons.mpr ⟨hblank, hlength.1⟩)
  | false =>
    refine .inr ?_
    cases hcomment : measureComment c (u ++ rest) with
    | none =>
      have hnot := isTrivia_of_measure hblank hcomment
      rw [h, hkind] at hnot
      cases hnot
    | some piece =>
      rw [measure, if_neg (by simp [hblank]), hcomment, Option.some_or, Option.some_or,
        Option.getD_some] at h
      rw [h] at hcomment
      exact (measureComment_eq_some_iff.mp hcomment).2

/-- A piece that is a lexeme begins where no blank and no comment does. -/
theorem beginsLexeme_of_measure (h : (measure c rest).1.isTrivia = false) :
    BeginsLexeme (c :: rest) := by
  cases hblank : isBlank c with
  | true =>
    rw [measure, if_pos hblank] at h
    cases h
  | false =>
    refine ⟨by simpa using hblank, fun u v huv hcomment ↦ ?_⟩
    have hcut : ∃ n, measureComment c rest = some (.comment, n) := by
      cases u with
      | nil => cases hcomment
      | cons d u =>
        obtain ⟨rfl, rfl⟩ := List.cons.inj huv
        exact ⟨_, measureComment_eq_some_iff.mpr ⟨rfl, hcomment⟩⟩
    obtain ⟨n, hn⟩ := hcut
    rw [measure, if_neg (by simp [hblank]), hn] at h
    cases h

/-- The first piece of a text, and the pieces of what follows it. -/
theorem exists_piece (offset : Nat) (c : Char) (rest : List Char) :
    ∃ u v kind, rest = u ++ v ∧ measure c (u ++ v) = (kind, u.length + 1) ∧
      scanAfter 0 offset (c :: rest) = ⟨kind, String.ofList (c :: u), offset⟩ ::
        scanAfter 0 (offset + (c :: u).length) v := by
  have hbounds : 1 ≤ (measure c rest).2 ∧ (measure c rest).2 ≤ rest.length + 1 := by
    cases hblank : isBlank c with
    | true =>
      have hle := Rust.Lexeme.length_takeWhile_le isBlank rest
      rw [measure, if_pos hblank]
      omega
    | false => exact (measure_bounds hblank rest).2
  obtain ⟨u, v, rfl, hu⟩ : ∃ u v, rest = u ++ v ∧ (measure c rest).2 = u.length + 1 := by
    refine ⟨rest.take ((measure c rest).2 - 1), rest.drop ((measure c rest).2 - 1),
      (List.take_append_drop _ _).symm, ?_⟩
    rw [List.length_take]
    omega
  have hpiece : measure c (u ++ v) = ((measure c (u ++ v)).1, u.length + 1) := Prod.ext rfl hu
  exact ⟨u, v, _, rfl, hpiece, scanAfter_cons offset hpiece⟩

/-! ## Gaps -/

/-- Blanks and comments in front of `rest`, one behind the other. -/
inductive Skipped : List Char → List Char → Prop
  | nil (rest : List Char) : Skipped [] rest
  | blank {c : Char} {u rest : List Char} (hc : isBlank c = true) (h : Skipped u rest) :
      Skipped (c :: u) rest
  | comment {u v rest : List Char} (hu : Comment u (v ++ rest)) (h : Skipped v rest) :
      Skipped (u ++ v) rest

theorem Skipped.blanks (hu : ∀ c ∈ u, isBlank c = true) (h : Skipped v rest) :
    Skipped (u ++ v) rest := by
  induction u with
  | nil => exact h
  | cons c u ih =>
    obtain ⟨hc, hu⟩ := List.forall_mem_cons.mp hu
    exact .blank hc (ih hu)

/-- What is left out is blank, or it belongs to a comment. -/
theorem Skipped.cases_getElem (h : Skipped u rest) {i : Nat} (hi : i < u.length) :
    isBlank u[i] = true ∨ ∃ before comment after, u = before ++ (comment ++ after) ∧
      Comment comment (after ++ rest) ∧ before.length ≤ i ∧
        i < before.length + comment.length := by
  induction h generalizing i with
  | nil => simp at hi
  | @blank c u rest hc h ih =>
    cases i with
    | zero => exact .inl hc
    | succ i =>
      rcases ih (Nat.lt_of_succ_lt_succ hi) with
        hblank | ⟨before, comment, after, rfl, hcut, hle, hlt⟩
      · exact .inl hblank
      · exact .inr ⟨c :: before, comment, after, rfl, hcut, by simp; omega, by simp; omega⟩
  | @comment u v rest hu h ih =>
    rcases Nat.lt_or_ge i u.length with hlt | hge
    · exact .inr ⟨[], u, v, rfl, hu, Nat.zero_le i, by simpa using hlt⟩
    · have hi' : i - u.length < v.length := by
        rw [List.length_append] at hi
        omega
      rcases ih hi' with hblank | ⟨before, comment, after, rfl, hcut, hle, hlt⟩
      · exact .inl (by rwa [List.getElem_append_right hge])
      · refine .inr ⟨u ++ before, comment, after, by simp, hcut, ?_, ?_⟩ <;>
          simp only [List.length_append] <;> omega

/-! ## Texts -/

/-- Where a lexeme ends. -/
def Lexeme.stop (l : Lexeme) : Nat := l.offset + l.text.toList.length

/-- The lexemes stand one behind the other in the text that follows `front`, and what stands in
front of, between and behind them is left out. -/
inductive Tiles : List Char → List Char → List Lexeme → Prop
  | nil {front gap : List Char} (hgap : Skipped gap []) : Tiles front gap []
  | cons {front gap u rest : List Char} {l : Lexeme} {ls : List Lexeme}
      (hgap : Skipped gap (u ++ rest)) (hu : u ≠ []) (hbegins : BeginsLexeme (u ++ rest))
      (hkind : l.kind.isTrivia = false) (htext : l.text.toList = u)
      (hoffset : l.offset = (front ++ gap).length) (h : Tiles (front ++ gap ++ u) rest ls) :
      Tiles front (gap ++ (u ++ rest)) (l :: ls)

/-- What is left out may be put in front. -/
theorem Tiles.skip (hu : ∀ gap rest, cs = gap ++ rest → Skipped gap rest → Skipped (u ++ gap) rest)
    (h : Tiles (front ++ u) cs ls) : Tiles front (u ++ cs) ls := by
  cases h with
  | nil hgap => exact .nil (hu cs [] (List.append_nil cs).symm hgap)
  | @cons front gap u' rest l ls hgap hne hbegins hkind htext hoffset h =>
    rw [← List.append_assoc]
    refine .cons (hu gap _ rfl hgap) hne hbegins hkind htext ?_ ?_
    · rw [hoffset, List.append_assoc]
    · rwa [← List.append_assoc front]

/-- **The lexemes of a text and what is left out between them make up the text.** -/
theorem tiles_scanAfter (front cs : List Char) :
    Tiles front cs ((scanAfter 0 front.length cs).filter fun l ↦ !l.kind.isTrivia) := by
  induction hn : cs.length using Nat.strongRecOn generalizing front cs with
  | ind n ih =>
    cases cs with
    | nil => exact .nil (.nil [])
    | cons c rest =>
      obtain ⟨u, v, kind, rfl, hpiece, hscan⟩ := exists_piece front.length c rest
      have hshort : v.length < n := by
        rw [← hn, List.length_cons, List.length_append]
        omega
      have hrest := ih v.length hshort (front ++ c :: u) v rfl
      rw [List.length_append] at hrest
      rw [hscan, List.filter_cons]
      cases hkind : kind.isTrivia with
      | true =>
        refine Tiles.skip (u := c :: u) (fun gap rest hv hgap ↦ ?_) hrest
        rcases trivia_of_measure hpiece hkind with hblanks | hcomment
        · exact hgap.blanks hblanks
        · exact .comment (hv ▸ hcomment) hgap
      | false =>
        have hbegins : BeginsLexeme (c :: (u ++ v)) :=
          beginsLexeme_of_measure (by rw [hpiece]; exact hkind)
        refine @Tiles.cons front [] (c :: u) v _ _ (.nil _) (List.cons_ne_nil c u) hbegins hkind
          String.toList_ofList (by simp) ?_
        simpa using hrest

namespace Tiles

/-- Lexemes stand behind the text in front. -/
theorem le (h : Tiles front cs ls) : ∀ l ∈ ls, front.length ≤ l.offset := by
  induction h with
  | nil => simp
  | cons _ _ _ _ _ hoffset _ ih =>
    refine List.forall_mem_cons.mpr ⟨by simp [hoffset], fun l hl ↦ ?_⟩
    have hle := ih l hl
    simp only [List.length_append] at hle
    omega

/-- A lexeme is the slice of the text at its offset. -/
theorem exists_append (h : Tiles front cs ls) : ∀ l ∈ ls, l.text ≠ "" ∧
    ∃ before after, front ++ cs = before ++ (l.text.toList ++ after) ∧ l.offset = before.length ∧
      BeginsLexeme (l.text.toList ++ after) := by
  induction h with
  | nil => simp
  | @cons front gap u rest l ls _ hu hbegins _ htext hoffset _ ih =>
    refine List.forall_mem_cons.mpr ⟨⟨?_, front ++ gap, rest, ?_, hoffset, htext ▸ hbegins⟩, ?_⟩
    · rintro hempty
      exact hu (by rw [← htext, hempty]; rfl)
    · rw [htext, List.append_assoc]
    · simpa using ih

/-- Lexemes come in order and do not overlap. -/
theorem pairwise (h : Tiles front cs ls) :
    ls.Pairwise fun l m ↦ l.offset < m.offset ∧ l.stop ≤ m.offset := by
  induction h with
  | nil => exact .nil
  | cons _ hu _ _ htext hoffset h ih =>
    refine .cons (fun m hm ↦ ?_) ih
    have hle := h.le m hm
    have hpos := List.length_pos_iff.mpr hu
    rw [List.length_append] at hle
    rw [Lexeme.stop, htext, hoffset]
    omega

end Tiles

/-- Where the last of the lexemes ends; the beginning of the text if there is none. -/
def endOf (ls : List Lexeme) : Nat := (ls.getLast?.map Lexeme.stop).getD 0

/-- Where the first of the lexemes begins; the end of the text if there is none. -/
def startOf (cs : List Char) (ls : List Lexeme) : Nat :=
  (ls.head?.map Lexeme.offset).getD cs.length

/-- From `start` to `stop` there is a comment in the text, and no lexeme reaches into it. -/
structure LeavesOut (cs : List Char) (ls : List Lexeme) (start stop : Nat) : Prop where
  comment : ∃ before comment after, cs = before ++ (comment ++ after) ∧ start = before.length ∧
    stop = before.length + comment.length ∧ Comment comment after
  apart : ∀ l ∈ ls, l.stop ≤ start ∨ stop ≤ l.offset

/-- The character at a place belongs to the lexeme. -/
def Lexeme.Covers (l : Lexeme) (i : Nat) : Prop := l.offset ≤ i ∧ i < l.stop

namespace Tiles

/-- The gap in front of the first lexeme; the whole text if there is none. -/
theorem exists_first (h : Tiles front cs ls) : ∃ gap rest, cs = gap ++ rest ∧
    (front ++ gap).length = startOf (front ++ cs) ls ∧ Skipped gap rest := by
  cases h with
  | nil hgap => exact ⟨cs, [], (List.append_nil cs).symm, rfl, hgap⟩
  | cons hgap _ _ _ _ hoffset => exact ⟨_, _, rfl, hoffset.symm, hgap⟩

/-- **What stands between lexemes is left out.** -/
theorem exists_gap (h : Tiles front cs ls) {before after : List Lexeme}
    (hls : ls = before ++ after) : ∃ head gap rest, front ++ cs = head ++ (gap ++ rest) ∧
      head.length = (before.getLast?.map Lexeme.stop).getD front.length ∧
        (head ++ gap).length = startOf (front ++ cs) after ∧ Skipped gap rest := by
  induction h generalizing before with
  | nil hgap =>
    obtain ⟨rfl, rfl⟩ := List.append_eq_nil_iff.mp hls.symm
    exact ⟨_, _, [], by rw [List.append_nil], rfl, rfl, hgap⟩
  | @cons front gap u rest l ls hgap hu hbegins hkind htext hoffset h ih =>
    cases before with
    | nil =>
      obtain rfl : after = l :: ls := hls.symm
      obtain ⟨gap, rest', hcs, hstart, hgap⟩ :=
        (cons hgap hu hbegins hkind htext hoffset h).exists_first
      exact ⟨front, gap, rest', by rw [hcs], rfl, hstart, hgap⟩
    | cons m before =>
      obtain ⟨rfl, htail⟩ := List.cons.inj hls
      obtain ⟨head, gap', rest', hcs, hhead, hstart, hgap'⟩ := ih htail
      simp only [List.append_assoc] at hcs hstart
      refine ⟨head, gap', rest', hcs, ?_, hstart, hgap'⟩
      have hstop : (front ++ gap ++ u).length = l.stop := by
        rw [Lexeme.stop, htext, hoffset, List.length_append]
      rw [hhead, hstop, List.getLast?_cons, Option.map_some, Option.getD_some]
      cases before.getLast? <;> rfl

end Tiles

/-- The character at a place belongs to none of the lexemes: it is blank, or a comment of the text
holds it that no lexeme reaches into. -/
def IsLeftOut (cs : List Char) (ls : List Lexeme) (i : Nat) : Prop :=
  (∀ l ∈ ls, ¬ l.Covers i) ∧ ((∃ c ∈ cs[i]?, isBlank c = true) ∨
    ∃ start stop, LeavesOut cs ls start stop ∧ start ≤ i ∧ i < stop)

/-- What stands between lexemes belongs to none of them. -/
theorem Skipped.isLeftOut (h : Skipped gap rest)
    (hls : ∀ l ∈ ls, l.stop ≤ front.length ∨ (front ++ gap).length ≤ l.offset) {i : Nat}
    (hi : i < gap.length) : IsLeftOut (front ++ (gap ++ rest)) ls (front.length + i) := by
  simp only [List.length_append] at hls
  refine ⟨fun l hl ⟨hle, hlt⟩ ↦ by have := hls l hl; omega, ?_⟩
  rcases h.cases_getElem hi with hblank | ⟨before, comment, after, rfl, hcomment, hle, hlt⟩
  · refine .inl ⟨gap[i], ?_, hblank⟩
    simp [List.getElem?_append_right, List.getElem?_append_left hi]
  · refine .inr ⟨front.length + before.length, front.length + before.length + comment.length,
      ⟨⟨front ++ before, comment, after ++ rest, by simp, by simp, by simp, hcomment⟩,
        fun l hl ↦ ?_⟩, by omega, by omega⟩
    have hl := hls l hl
    simp only [List.length_append] at hl
    omega

/-- **Every character belongs to a lexeme, or it is left out.**  The lexemes in front, which are
`before`, do not reach into the text. -/
theorem Tiles.covers (h : Tiles front cs ls) (before : List Lexeme)
    (hbefore : ∀ l ∈ before, l.stop ≤ front.length) {i : Nat} (hi : i < cs.length) :
    (∃ l ∈ ls, l.Covers (front.length + i)) ∨
      IsLeftOut (front ++ cs) (before ++ ls) (front.length + i) := by
  induction h generalizing before i with
  | @nil front gap hgap =>
    have hout : IsLeftOut (front ++ (gap ++ [])) (before ++ []) (front.length + i) :=
      hgap.isLeftOut (by simpa using fun l hl ↦ .inl (hbefore l hl)) hi
    rw [List.append_nil gap] at hout
    exact .inr hout
  | @cons front gap u rest l ls hgap hu hbegins hkind htext hoffset h ih =>
    have hstop : l.stop = (front ++ gap ++ u).length := by
      rw [Lexeme.stop, htext, hoffset]
      exact (List.length_append ..).symm
    rcases Nat.lt_or_ge i gap.length with hin | hin
    · refine .inr (hgap.isLeftOut (fun m hm ↦ ?_) hin)
      rcases List.mem_append.mp hm with hm | hm
      · exact .inl (hbefore m hm)
      · refine .inr ?_
        rcases List.mem_cons.mp hm with rfl | hm
        · exact Nat.le_of_eq hoffset.symm
        · have hle := h.le m hm
          rw [List.length_append] at hle
          omega
    rcases Nat.lt_or_ge i (gap.length + u.length) with hword | hword
    · refine .inl ⟨l, List.mem_cons_self, ?_, ?_⟩
      · rw [hoffset, List.length_append]
        omega
      · simp only [hstop, List.length_append]
        omega
    -- The character stands behind the first lexeme.
    have hplace : (front ++ gap ++ u).length + (i - gap.length - u.length) = front.length + i := by
      simp only [List.length_append]
      omega
    have hrest : i - gap.length - u.length < rest.length := by
      simp only [List.length_append] at hi
      omega
    have hnext := ih (before ++ [l]) (fun m hm ↦ ?_) hrest
    · rw [hplace] at hnext
      simp only [List.append_assoc, List.singleton_append] at hnext
      exact hnext.imp_left fun ⟨m, hm, hcovers⟩ ↦ ⟨m, List.mem_cons_of_mem _ hm, hcovers⟩
    · rcases List.mem_append.mp hm with hm | hm
      · have hm := hbefore m hm
        simp only [List.length_append]
        omega
      · exact Nat.le_of_eq (List.mem_singleton.mp hm ▸ hstop)

/-! ## The lexemes of a text -/

/-- A place belongs to one lexeme at most. -/
theorem eq_of_covers (hls : ls.Pairwise fun l m ↦ l.offset < m.offset ∧ l.stop ≤ m.offset) {i : Nat}
    {l m : Lexeme} (hl : l ∈ ls) (hm : m ∈ ls) (hli : l.Covers i) (hmi : m.Covers i) : l = m := by
  obtain ⟨hli, hlt⟩ := hli
  obtain ⟨hmi, hmt⟩ := hmi
  induction hls with
  | nil => cases hl
  | cons hall _ ih =>
    rcases List.mem_cons.mp hl with rfl | hl' <;> rcases List.mem_cons.mp hm with rfl | hm'
    · rfl
    · have := hall m hm'
      omega
    · have := hall l hl'
      omega
    · exact ih hl' hm'

/-- **The lexemes of a text lose and invent nothing.**  Each lexeme is a slice of the text that is
not empty and begins with no blank and no comment.  The lexemes come in order and do not overlap.
What stands in front of, between and behind them is blanks and comments.  So every character belongs
to exactly one lexeme, or it is blank or in a comment and belongs to none. -/
theorem lexemes_cover (cs : List Char) :
    (∀ l ∈ lexemes cs, l.text ≠ "" ∧ ∃ before after, cs = before ++ (l.text.toList ++ after) ∧
      l.offset = before.length ∧ BeginsLexeme (l.text.toList ++ after)) ∧
    ((lexemes cs).Pairwise fun l m ↦ l.offset < m.offset ∧ l.stop ≤ m.offset) ∧
    (∀ before after, lexemes cs = before ++ after → ∃ head gap rest, cs = head ++ (gap ++ rest) ∧
      head.length = endOf before ∧ (head ++ gap).length = startOf cs after ∧ Skipped gap rest) ∧
    ∀ i < cs.length, (∃! l, l ∈ lexemes cs ∧ l.Covers i) ∨ IsLeftOut cs (lexemes cs) i := by
  have htiles : Tiles [] cs (lexemes cs) := tiles_scanAfter [] cs
  refine ⟨htiles.exists_append, htiles.pairwise, fun before after ↦ htiles.exists_gap,
    fun i hi ↦ ?_⟩
  have hcovers := htiles.covers [] (by simp) hi
  rw [List.length_nil, Nat.zero_add] at hcovers
  refine hcovers.imp_left fun ⟨l, hl, hli⟩ ↦ ⟨l, ⟨hl, hli⟩, ?_⟩
  exact fun m ⟨hm, hmi⟩ ↦ eq_of_covers htiles.pairwise hm hl hmi hli

/-- A quote, a slash and an apostrophe that begin nothing which ends stand alone. -/
example : lexemes ['"', 'é', ' ', '/', '*', '\'', ' ', '/', '/', 'x'] =
    [⟨.punct, "\"", 0⟩, ⟨.punct, "é", 1⟩, ⟨.punct, "/", 3⟩, ⟨.punct, "*", 4⟩,
      ⟨.punct, "'", 5⟩] := by
  decide

end Spelling
end NodeSchema
