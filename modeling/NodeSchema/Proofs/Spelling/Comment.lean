import NodeSchema.Proofs.Spelling.Gap
import NodeSchema.Proofs.Spelling.Offset

/-!
# Comments in a spelling file

A comment may be put at a place that is free (`IsFree`): between two lexemes, not in another
comment, and behind no string or block comment that does not end.  In front of such a place the
lexemes are the same whatever is put there behind a blank (`exists_units`), and a comment is passed
over up to its first `*/` (`units_comment`).

So a comment changes nothing in the table if its first `*/` is its end, and what a block comment
holds behind its first `*/`, because another block comment stands in it, is read as lexemes
(`ofFile_insert_comment`).
-/

set_option autoImplicit false

namespace NodeSchema
namespace Spelling

open Text

/-! ## The lexemes without their places -/

/-- The lexemes of a text without their places. -/
def units (cs : List Char) : List (PieceKind × String) := unplaced (lexemes cs)

theorem units_scanAfter (skip offset : Nat) (cs : List Char) :
    unplaced (withoutTrivia (scanAfter skip offset cs)) = units (cs.drop skip) := by
  have hoffset (skip offset offset' : Nat) (cs : List Char) :
      unplaced (withoutTrivia (scanAfter skip offset cs)) =
        unplaced (withoutTrivia (scanAfter skip offset' cs)) := by
    induction cs generalizing skip offset offset' with
    | nil => cases skip <;> rfl
    | cons c cs ih =>
      cases skip with
      | succ skip => exact ih skip (offset + 1) (offset' + 1)
      | zero =>
        simp only [scanAfter, withoutTrivia, List.filter_cons]
        split
        · exact congrArg (_ :: ·) (ih _ _ _)
        · exact ih _ _ _
  rw [scanAfter_eq_scanAfter_drop]
  exact hoffset 0 _ 0 _

theorem units_cons {c : Char} {u rest : List Char} {kind : PieceKind}
    (h : measure c (u ++ rest) = (kind, u.length + 1)) :
    units (c :: (u ++ rest)) =
      (if kind.isTrivia then [] else [(kind, String.ofList (c :: u))]) ++ units rest := by
  have hscan : lexemes (c :: (u ++ rest)) = withoutTrivia (scanAfter 0 0 (c :: (u ++ rest))) := rfl
  rw [units, hscan, scanAfter_cons 0 h, withoutTrivia, List.filter_cons]
  cases htrivia : kind.isTrivia with
  | true => exact units_scanAfter 0 _ rest
  | false => exact congrArg (_ :: ·) (units_scanAfter 0 _ rest)

theorem measure_blanks {c : Char} {u rest : List Char} (hc : isBlank c = true)
    (hu : ∀ d ∈ u, isBlank d = true) (hrest : ∀ d ∈ rest.head?, isBlank d = false) :
    measure c (u ++ rest) = (.blank, u.length + 1) := by
  have hnone : rest.takeWhile isBlank = [] := by
    cases rest with
    | nil => rfl
    | cons d rest =>
      rw [List.takeWhile_cons_of_neg (Bool.eq_false_iff.mp (hrest d rfl))]
  rw [measure, if_pos hc, List.takeWhile_append_of_pos hu, hnone, List.append_nil, Nat.add_comm]

theorem units_blanks {u rest : List Char} (hu : ∀ d ∈ u, isBlank d = true)
    (hrest : ∀ d ∈ rest.head?, isBlank d = false) : units (u ++ rest) = units rest := by
  cases u with
  | nil => rfl
  | cons c u =>
    obtain ⟨hc, hu⟩ := List.forall_mem_cons.mp hu
    exact units_cons (measure_blanks hc hu hrest)

theorem head?_dropWhile_isBlank (rest : List Char) :
    ∀ d ∈ (rest.dropWhile isBlank).head?, isBlank d = false := by
  intro d hd
  have := List.head?_dropWhile_not isBlank rest
  rw [Option.mem_def.mp hd] at this
  simpa using this

/-- A blank separates lexemes and is none. -/
theorem units_blank {c : Char} (hc : isBlank c = true) (rest : List Char) :
    units (c :: rest) = units rest := by
  have hall : ∀ d ∈ rest.takeWhile isBlank, isBlank d = true :=
    List.all_eq_true.mp List.all_takeWhile
  conv_lhs => rw [← List.takeWhile_append_dropWhile (p := isBlank) (l := rest), ← List.cons_append]
  conv_rhs => rw [← List.takeWhile_append_dropWhile (p := isBlank) (l := rest)]
  rw [units_blanks (List.forall_mem_cons.mpr ⟨hc, hall⟩) (head?_dropWhile_isBlank rest),
    units_blanks hall (head?_dropWhile_isBlank rest)]

/-! ## Places for a comment -/

/-- The place after `n` characters is free: no piece but blanks goes over it, it is not in front of
the end of a line that a comment goes up to, and no string and no block comment is begun before it
that does not end. -/
structure IsFree (pieces : List Lexeme) (n : Nat) : Prop where
  apart : ∀ l ∈ pieces, l.kind ≠ .blank → l.offset + l.text.length ≤ n ∨ n ≤ l.offset
  lines : ∀ l ∈ pieces, l.kind = .comment → l.text.toList.take 2 = ['/', '/'] →
    l.offset + l.text.length ≠ n
  strings : ∀ l ∈ pieces, l.kind = .punct → l.text = "\"" → n ≤ l.offset
  comments : ∀ l ∈ pieces, ∀ l' ∈ pieces, l.kind = .punct → l.text = "/" → l'.kind = .punct →
    l'.text = "*" → l'.offset = l.offset + 1 → n ≤ l'.offset

section Free

variable {pieces : List Lexeme} {l : Lexeme} {n : Nat}

theorem IsFree.tail (h : IsFree (l :: pieces) n) : IsFree pieces n where
  apart l hl := h.apart l (List.mem_cons_of_mem _ hl)
  lines l hl := h.lines l (List.mem_cons_of_mem _ hl)
  strings l hl := h.strings l (List.mem_cons_of_mem _ hl)
  comments l hl l' hl' := h.comments l (List.mem_cons_of_mem _ hl) l' (List.mem_cons_of_mem _ hl')

theorem IsFree.cons_blank (h : IsFree pieces n) (hl : l.kind = .blank) :
    IsFree (l :: pieces) n where
  apart l' hl' hkind := by
    rcases List.mem_cons.mp hl' with rfl | hl'
    · exact absurd hl hkind
    · exact h.apart l' hl' hkind
  lines l' hl' hkind := by
    rcases List.mem_cons.mp hl' with rfl | hl'
    · rw [hl] at hkind; cases hkind
    · exact h.lines l' hl' hkind
  strings l' hl' hkind := by
    rcases List.mem_cons.mp hl' with rfl | hl'
    · rw [hl] at hkind; cases hkind
    · exact h.strings l' hl' hkind
  comments l' hl' l'' hl'' hkind htext hkind' := by
    rcases List.mem_cons.mp hl' with rfl | hl'
    · rw [hl] at hkind; cases hkind
    · rcases List.mem_cons.mp hl'' with rfl | hl''
      · rw [hl] at hkind'; cases hkind'
      · exact h.comments l' hl' l'' hl'' hkind htext hkind'

end Free

/-- The blanks in front of a place have no say in whether it is free. -/
theorem IsFree.of_blank {c : Char} {rest : List Char} {offset n : Nat} (hc : isBlank c = true)
    (h : IsFree (scanAfter 0 offset (c :: rest)) n) : IsFree (scanAfter 0 (offset + 1) rest) n := by
  have hrest := List.takeWhile_append_dropWhile (p := isBlank) (l := rest)
  have hall : ∀ d ∈ rest.takeWhile isBlank, isBlank d = true :=
    List.all_eq_true.mp List.all_takeWhile
  have hhead := head?_dropWhile_isBlank rest
  generalize rest.takeWhile isBlank = u, rest.dropWhile isBlank = v at hrest hall hhead
  subst hrest
  rw [scanAfter_cons offset (measure_blanks hc hall hhead)] at h
  have htail := h.tail
  cases u with
  | nil => exact htail
  | cons d u =>
    obtain ⟨hd, hall⟩ := List.forall_mem_cons.mp hall
    rw [List.cons_append, scanAfter_cons (offset + 1) (measure_blanks hd hall hhead)]
    rw [List.length_cons, ← Nat.add_assoc, Nat.add_right_comm] at htail
    exact htail.cons_blank rfl

section Place

variable {c : Char} {w x : List Char} {offset : Nat}

/-- The first piece. -/
theorem mem_scanAfter (c : Char) (rest : List Char) (offset : Nat) :
    ⟨(measure c rest).1, String.ofList (c :: rest.take ((measure c rest).2 - 1)), offset⟩ ∈
      scanAfter 0 offset (c :: rest) := List.mem_cons_self

/-- The piece behind one of a single character. -/
theorem mem_scanAfter_of_single {d : Char} {rest : List Char} (offset : Nat)
    (h : (measure c (d :: rest)).2 = 1) :
    ⟨(measure d rest).1, String.ofList (d :: rest.take ((measure d rest).2 - 1)), offset + 1⟩ ∈
      scanAfter 0 offset (c :: d :: rest) := by
  rw [scanAfter]
  dsimp only
  rw [h]
  exact List.mem_cons_of_mem _ (mem_scanAfter d rest (offset + 1))

/-- No block comment is begun in front of a free place that does not end. -/
theorem IsFree.measureComment_ne_none
    (h : IsFree (scanAfter 0 offset (c :: (w ++ x))) (offset + (c :: w).length)) (hc : c = '/')
    (hw : w.head? = some '*') : measureComment c (w ++ x) ≠ none := by
  subst hc
  obtain ⟨w, rfl⟩ := List.head?_eq_some_iff.mp hw
  intro hnone
  rw [List.cons_append] at h hnone
  have hslash : measure '/' ('*' :: (w ++ x)) = (.punct, 1) := by
    rw [measure, hnone]
    rfl
  have hstar : measure '*' (w ++ x) = (.punct, 1) := rfl
  have hmem := mem_scanAfter '/' ('*' :: (w ++ x)) offset
  have hmem' := mem_scanAfter_of_single offset (congrArg Prod.snd hslash)
  rw [hslash] at hmem
  rw [hstar] at hmem'
  have hle := h.comments _ hmem _ hmem' rfl rfl rfl rfl rfl
  simp only [List.length_cons] at hle
  omega

/-- No string is begun in front of a free place that does not end. -/
theorem IsFree.measureQuoted_ne_none
    (h : IsFree (scanAfter 0 offset (c :: (w ++ x))) (offset + (c :: w).length))
    (hw : BeginsString c w) : measureQuoted c (w ++ x) ≠ none := by
  have hquote {v : List Char} (hnone : stringTail v = none) : measure '"' v = (.punct, 1) := by
    have hquoted : measureQuoted '"' v = none := by rw [measureQuoted, hnone]; rfl
    rw [measure, hquoted]
    rfl
  intro hnone
  rcases hw with rfl | ⟨rfl, hw⟩
  · have hmem := mem_scanAfter '"' (w ++ x) offset
    rw [measureQuoted, Option.map_eq_none_iff] at hnone
    rw [hquote hnone] at hmem
    have hle := h.strings _ hmem rfl rfl
    simp only [List.length_cons] at hle
    omega
  · obtain ⟨w, rfl⟩ := List.head?_eq_some_iff.mp hw
    rw [List.cons_append] at h hnone
    have hname : (measure 'b' ('"' :: (w ++ x))).2 = 1 := by
      rw [measure, hnone]
      rfl
    have hmem := mem_scanAfter_of_single offset hname
    rw [measureQuoted, Option.map_eq_none_iff] at hnone
    rw [hquote hnone] at hmem
    have hle := h.strings _ hmem rfl rfl
    simp only [List.length_cons] at hle
    omega

/-- The pieces in front of a free place end there. -/
theorem IsFree.measure_le (hblank : isBlank c = false)
    (h : IsFree (scanAfter 0 offset (c :: (w ++ x))) (offset + (c :: w).length)) :
    (measure c (w ++ x)).2 ≤ w.length + 1 ∧
      (c = '/' → w.head? = some '/' → (measure c (w ++ x)).2 ≤ w.length) := by
  obtain ⟨hkind, hpos, hle⟩ := measure_bounds hblank (w ++ x)
  have hmem := mem_scanAfter c (w ++ x) offset
  have hlength : (String.ofList (c :: (w ++ x).take ((measure c (w ++ x)).2 - 1))).length =
      (measure c (w ++ x)).2 := by
    rw [String.length_ofList, List.length_cons, List.length_take]
    omega
  have hend : (measure c (w ++ x)).2 ≤ w.length + 1 := by
    have hapart := h.apart _ hmem hkind
    dsimp only at hapart
    rw [hlength, List.length_cons] at hapart
    omega
  refine ⟨hend, ?_⟩
  rintro rfl hw
  obtain ⟨w, rfl⟩ := List.head?_eq_some_iff.mp hw
  have hline : measure '/' ('/' :: w ++ x) =
      (.comment, 2 + ((w ++ x).takeWhile (· ≠ '\n')).length) := rfl
  have hlines := h.lines _ hmem (congrArg Prod.fst hline) (by
    rw [String.toList_ofList, hline, Nat.add_comm]
    rfl)
  dsimp only at hlines
  rw [hlength, List.length_cons] at hlines
  omega

end Place

/-- **In front of a free place a text has the same lexemes, whatever is put there.** -/
theorem exists_units {before after : List Char} {offset : Nat}
    (h : IsFree (scanAfter 0 offset (before ++ after)) (offset + before.length)) {t : List Char}
    (ht : IsGap t) :
    ∃ us, units (before ++ after) = us ++ units after ∧ units (before ++ t) = us ++ units t := by
  induction hn : before.length using Nat.strongRecOn generalizing before offset with
  | ind n ih =>
    subst hn
    cases before with
    | nil => exact ⟨[], rfl, rfl⟩
    | cons c w =>
      rw [List.cons_append, List.cons_append]
      cases hblank : isBlank c with
      | true =>
        rw [units_blank hblank, units_blank hblank]
        have hfree := IsFree.of_blank hblank h
        rw [List.length_cons, Nat.add_comm w.length, ← Nat.add_assoc] at hfree
        exact ih w.length (Nat.lt_succ_self _) hfree rfl
      | false =>
        obtain ⟨hend, hline⟩ := h.measure_le hblank
        have hgap := measure_gap ht hblank hend hline h.measureComment_ne_none
          h.measureQuoted_ne_none
        obtain ⟨-, hpos, -⟩ := measure_bounds hblank (w ++ after)
        -- The piece and what follows it up to the place.
        obtain ⟨u, v, rfl, hu⟩ : ∃ u v, w = u ++ v ∧
            (measure c (w ++ after)).2 = u.length + 1 := by
          refine ⟨w.take ((measure c (w ++ after)).2 - 1), w.drop ((measure c (w ++ after)).2 - 1),
            (List.take_append_drop _ _).symm, ?_⟩
          rw [List.length_take]
          omega
        rw [List.cons_append, List.append_assoc] at h
        rw [List.append_assoc, List.append_assoc] at hgap
        rw [List.append_assoc] at hu
        have hpiece : measure c (u ++ (v ++ after)) = (_, u.length + 1) := Prod.ext rfl hu
        rw [scanAfter_cons offset hpiece] at h
        have hplace : offset + (c :: u).length + v.length = offset + (c :: (u ++ v)).length := by
          simp only [List.length_cons, List.length_append]
          omega
        obtain ⟨us, hafter, hgapped⟩ := ih v.length
          (by simp only [List.length_cons, List.length_append]; omega)
          (hplace ▸ h.tail) rfl
        rw [List.append_assoc, List.append_assoc, units_cons hpiece,
          units_cons (hgap.trans hpiece), hafter, hgapped]
        exact ⟨_, (List.append_assoc _ _ _).symm, (List.append_assoc _ _ _).symm⟩

/-! ## Comments -/

/-- A comment as the language has it: a line comment with the end of its line, or a block comment,
in which block comments may stand. -/
inductive IsComment : List Char → Prop
  | line {body : List Char} (h : '\n' ∉ body) : IsComment ('/' :: '/' :: (body ++ ['\n']))
  | block {body : List Char} (h : Rust.Lexeme.blockTail 0 body = some body.length) :
      IsComment ('/' :: '*' :: body)

/-- What stands in a block comment behind its first `*/`. -/
def leftover : List Char → List Char
  | '/' :: '*' :: body => body.drop ((commentTail body).getD 0)
  | _ => []

theorem exists_commentTail_cons {cs : List Char} (h : ∃ m, commentTail cs = some m) (c : Char) :
    ∃ m, commentTail (c :: cs) = some m := by
  obtain ⟨m, hm⟩ := h
  rw [commentTail.eq_def]
  split
  · exact ⟨2, rfl⟩
  · next hcons =>
    obtain ⟨-, rfl⟩ := List.cons.inj hcons
    rw [hm]
    exact ⟨m + 1, rfl⟩
  · next hnil => cases hnil

/-- A block comment has a first `*/`: its own, or that of a block comment in it. -/
theorem exists_commentTail {depth : Nat} {cs : List Char} {n : Nat}
    (h : Rust.Lexeme.blockTail depth cs = some n) : ∃ m, commentTail cs = some m := by
  fun_induction Rust.Lexeme.blockTail depth cs generalizing n with
  | case1 => exact ⟨2, rfl⟩
  | case2 => exact ⟨2, rfl⟩
  | case3 depth rest ih =>
    obtain ⟨m, hm, -⟩ := Option.map_eq_some_iff.mp h
    exact exists_commentTail_cons (exists_commentTail_cons (ih hm) '*') '/'
  | case4 depth c rest _ _ _ ih =>
    obtain ⟨m, hm, -⟩ := Option.map_eq_some_iff.mp h
    exact exists_commentTail_cons (ih hm) c
  | case5 => cases h

theorem units_comment_line {body : List Char} (h : '\n' ∉ body) (t : List Char) :
    units ('/' :: '/' :: (body ++ '\n' :: t)) = units t := by
  have htake : (body ++ '\n' :: t).takeWhile (· ≠ '\n') = body := by
    have hbody : ∀ d ∈ body, decide (d ≠ '\n') = true := by
      intro d hd
      refine decide_eq_true ?_
      rintro rfl
      exact h hd
    rw [List.takeWhile_append_of_pos hbody, List.takeWhile_cons_of_neg (by decide),
      List.append_nil]
  have hmeasure :
      measure '/' ('/' :: body ++ '\n' :: t) = (.comment, ('/' :: body).length + 1) := by
    have hline : measure '/' ('/' :: body ++ '\n' :: t) =
        (.comment, 2 + ((body ++ '\n' :: t).takeWhile (· ≠ '\n')).length) := rfl
    rw [hline, htake, List.length_cons, Nat.add_comm]
  exact (units_cons hmeasure).trans (units_blank (by decide) t)

/-- A block comment ends with its first `*/`. -/
theorem units_comment_block {body : List Char} {n : Nat} (h : commentTail body = some n)
    (t : List Char) : units ('/' :: '*' :: (body ++ t)) = units (body.drop n ++ t) := by
  have hle := delimits_commentTail.le h
  have hmeasure : measure '/' ('*' :: body.take n ++ (body.drop n ++ t)) =
      (.comment, ('*' :: body.take n).length + 1) := by
    have hblock : measure '/' ('*' :: (body ++ t)) = (.comment, n + 2) := by
      have hcomment : measureComment '/' ('*' :: (body ++ t)) = some (.comment, n + 2) := by
        rw [measureComment, delimits_commentTail.append h t]
        rfl
      rw [measure, hcomment]
      rfl
    rw [List.cons_append, ← List.append_assoc, List.take_append_drop, hblock, List.length_cons,
      List.length_take, Nat.min_eq_left hle]
  have hunits := units_cons hmeasure
  rwa [List.cons_append, ← List.append_assoc, List.take_append_drop] at hunits

/-- **A comment is passed over up to its first `*/`.** -/
theorem units_comment {comment : List Char} (h : IsComment comment) (t : List Char) :
    units (comment ++ t) = units (leftover comment ++ t) := by
  cases h with
  | @line body h =>
    have hleftover : leftover ('/' :: '/' :: (body ++ ['\n'])) = [] := rfl
    rw [hleftover, List.nil_append, List.cons_append, List.cons_append, List.append_assoc]
    exact units_comment_line h t
  | block h =>
    obtain ⟨n, hn⟩ := exists_commentTail h
    rw [leftover, hn]
    exact units_comment_block hn t

/-! ## Tables -/

theorem eq_ok_iff_of_alike {α : Type} {a b : Except Failure α} (h : Alike (· = ·) a b) (x : α) :
    a = .ok x ↔ b = .ok x := by
  cases h with
  | ok h => rw [h]
  | error => exact iff_of_false nofun nofun

/-- Texts with the same lexemes hold the same table. -/
theorem ofFile_congr {text text' : List Char} (h : units text = units text') (path : String)
    (table : Table String) :
    ofFile (.ofText path text) = .ok table ↔ ofFile (.ofText path text') = .ok table := by
  have hsame : (File.ofText path text).SameTexts (.ofText path text') := h
  exact eq_ok_iff_of_alike (alike_ofFile hsame) table

theorem IsComment.exists_cons {comment : List Char} (h : IsComment comment) :
    ∃ rest, comment = '/' :: rest := by
  cases h with
  | line => exact ⟨_, rfl⟩
  | block => exact ⟨_, rfl⟩

/-- **A comment with a blank on either side changes nothing in a table**, wherever it is put between
two lexemes, if its first `*/` is its end.  What stands behind the first `*/` is read as if it stood
there without the comment.  The place must not be in another comment, nor in a string or block
comment that does not end. -/
theorem ofFile_insert_comment {before after comment : List Char}
    (hplace : IsFree (scan (before ++ after)) before.length) (hcomment : IsComment comment)
    (path : String) (table : Table String) :
    (leftover comment = [] →
      (ofFile (.ofText path (before ++ ' ' :: (comment ++ ' ' :: after))) = .ok table ↔
        ofFile (.ofText path (before ++ after)) = .ok table)) ∧
    (ofFile (.ofText path (before ++ ' ' :: (comment ++ ' ' :: after))) = .ok table ↔
      ofFile (.ofText path (before ++ ' ' :: ' ' :: (leftover comment ++ ' ' :: after))) =
        .ok table) := by
  have hblank : isBlank ' ' = true := by decide
  have hplace : IsFree (scanAfter 0 0 (before ++ after)) (0 + before.length) := by
    rwa [Nat.zero_add]
  obtain ⟨rest, hrest⟩ := hcomment.exists_cons
  have hgap : IsGap (' ' :: (comment ++ ' ' :: after)) :=
    ⟨'/', rest ++ ' ' :: after, by rw [hrest]; rfl, by decide⟩
  obtain ⟨us, hus, hgapped⟩ := exists_units hplace hgap
  have hunits :
      units (' ' :: (comment ++ ' ' :: after)) = units (leftover comment ++ ' ' :: after) := by
    rw [units_blank hblank, units_comment hcomment]
  constructor
  · intro hflat
    refine ofFile_congr ?_ path table
    rw [hgapped, hus, hunits, hflat, List.nil_append, units_blank hblank]
  · refine ofFile_congr ?_ path table
    have hgap' : IsGap (' ' :: ' ' :: (leftover comment ++ ' ' :: after)) :=
      ⟨' ', _, rfl, by decide⟩
    obtain ⟨us', hus', hgapped'⟩ := exists_units hplace hgap'
    have hsame : us = us' := List.append_cancel_right (hus.symm.trans hus')
    rw [hgapped, hgapped', hunits, hsame, units_blank hblank, units_blank hblank]

/-- A place behind a rule, in front of the end of a table. -/
theorem isFree_behindRule :
    IsFree (scan ("macro_rules! Token \x7b [+] => \x7b $Plus \x7d;".toList ++ " \x7d".toList))
      "macro_rules! Token \x7b [+] => \x7b $Plus \x7d;".toList.length where
  apart := by decide
  lines := by decide
  strings := by decide
  comments := by decide

theorem ofFile_insert_comment_flat :
    ofFile (.ofText "token.rs" ("macro_rules! Token \x7b [+] => \x7b $Plus \x7d;".toList ++
      ' ' :: ("/* [-] => \x7b $Minus \x7d; */".toList ++ ' ' :: " \x7d".toList))) =
        .ok ⟨[("+", "Plus")]⟩ := by
  have hcomment : IsComment "/* [-] => \x7b $Minus \x7d; */".toList := .block rfl
  exact ((ofFile_insert_comment isFree_behindRule hcomment _ _).1 rfl).mpr rfl

/-- A block comment in a block comment ends it: no table is found any more. -/
theorem ofFile_insert_comment_nested :
    IsFree (scan ("macro_rules! Token \x7b [+] => \x7b $Plus \x7d;".toList ++ " \x7d".toList))
      "macro_rules! Token \x7b [+] => \x7b $Plus \x7d;".toList.length ∧
    IsComment "/* a /* b */ c */".toList ∧
    ofFile (.ofText "token.rs" ("macro_rules! Token \x7b [+] => \x7b $Plus \x7d;".toList ++
      " \x7d".toList)) = .ok ⟨[("+", "Plus")]⟩ ∧
    ∃ e, ofFile (.ofText "token.rs" ("macro_rules! Token \x7b [+] => \x7b $Plus \x7d;".toList ++
      ' ' :: ("/* a /* b */ c */".toList ++ ' ' :: " \x7d".toList))) = .error e :=
  ⟨isFree_behindRule, .block rfl, rfl, _, rfl⟩

end Spelling
end NodeSchema
