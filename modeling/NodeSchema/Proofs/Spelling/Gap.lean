import NodeSchema.Proofs.Layout.Spelling

/-!
# Pieces in front of a gap

The length of a piece is found by looking at the characters from its beginning on, and it may be
found past its end: a string that does not end looks through the whole text.  This module asks when
what follows a place may be replaced without a change to a piece in front of it.  What is put there
begins with a blank (`IsGap`).

* `delimits_commentTail`, `delimits_stringTail` — an end that is found is found there in any text.
* `measure_gap` — a piece that ends by the place ends there in front of a gap, too, unless it is a
  line comment that may go on, or the first character of a string or block comment without an end.
* `measure_bounds` — a piece takes at least one character and no more than there are.
-/

set_option autoImplicit false

namespace NodeSchema
namespace Spelling

open Text
open Rust.Lexeme (Delimits map_add_iff length_takeWhile_le)

/-! ## Comments and strings with an end -/

theorem two_le_commentTail {cs : List Char} {n : Nat} (h : commentTail cs = some n) : 2 ≤ n := by
  fun_induction commentTail cs generalizing n with
  | case1 => grind
  | case2 c rest _ ih =>
    obtain ⟨m, hm, rfl⟩ := Option.map_eq_some_iff.mp h
    have := ih hm
    omega
  | case3 => cases h

theorem delimits_commentTail : Delimits commentTail := by
  intro u t n
  fun_induction commentTail u generalizing n with
  | case1 => simp [commentTail]; omega
  | case2 c rest h1 ih =>
    cases rest with
    | nil =>
      refine iff_of_false (by simp [commentTail]) fun h ↦ ?_
      have := two_le_commentTail h.1
      have := h.2
      simp only [List.length_cons, List.length_nil] at this
      omega
    | cons r rest =>
      have htail : commentTail (c :: r :: rest ++ t) =
          (commentTail (r :: rest ++ t)).map (· + 1) := by
        simp only [List.cons_append]
        rw [commentTail]
        exact fun _ hc hr ↦ h1 rest hc (congrArg (· :: rest) (List.cons.inj hr).1)
      rw [htail]
      exact map_add_iff ih 1 n
  | case3 =>
    refine iff_of_false nofun fun h ↦ ?_
    have := two_le_commentTail h.1
    have := h.2
    simp only [List.length_nil] at this
    omega

theorem pos_of_stringTail {cs : List Char} {n : Nat} (h : stringTail cs = some n) : 1 ≤ n := by
  fun_induction stringTail cs generalizing n with
  | case1 c rest ih =>
    obtain ⟨m, -, rfl⟩ := Option.map_eq_some_iff.mp h
    omega
  | case2 => grind
  | case3 => cases h
  | case4 => 
    obtain ⟨m, -, rfl⟩ := Option.map_eq_some_iff.mp h
    omega
  | case5 => cases h

theorem delimits_stringTail : Delimits stringTail := by
  intro u t n
  fun_induction stringTail u generalizing n with
  | case1 c rest ih =>
    rw [List.cons_append, List.cons_append, stringTail]
    exact map_add_iff ih 2 n
  | case2 => simp [stringTail]; omega
  | case3 rest h _ =>
    obtain rfl : rest = [] := by
      cases rest with
      | nil => rfl
      | cons d rest => exact (h d rest rfl rfl).elim
    refine iff_of_false nofun fun hn ↦ ?_
    obtain ⟨hn, hle⟩ := hn
    cases t with
    | nil => simp [stringTail] at hn
    | cons d t =>
      rw [List.cons_append, List.nil_append, stringTail] at hn
      obtain ⟨m, -, rfl⟩ := Option.map_eq_some_iff.mp hn
      simp only [List.length_cons, List.length_nil] at hle
      omega
  | case4 c rest h1 h2 h3 ih =>
    rw [List.cons_append, stringTail, if_neg h2, if_neg h3]
    · exact map_add_iff ih 1 n
    · exact fun _ _ hc _ ↦ h3 hc
  | case5 =>
    refine iff_of_false nofun fun h ↦ ?_
    have := pos_of_stringTail h.1
    have := h.2
    simp only [List.length_nil] at this
    omega

/-! ## Pieces in front of a gap -/

/-- A gap: a blank, and behind it no quote that a quote in front of the blank could pair with. -/
def IsGap (t : List Char) : Prop := ∃ d rest, t = ' ' :: d :: rest ∧ d ≠ '\''

section Gap

variable {c : Char} {w x t : List Char} {kind : PieceKind} {n : Nat} {p : Char → Bool}

theorem takeWhile_append_of_le (h : ((w ++ x).takeWhile p).length ≤ w.length) :
    (w ++ x).takeWhile p = w.takeWhile p := by
  rw [List.takeWhile_append] at h ⊢
  split at h
  · next hall =>
    rw [if_pos hall]
    rw [List.length_append] at h
    have hnil : x.takeWhile p = [] := List.eq_nil_of_length_eq_zero (by omega)
    rw [hnil, List.append_nil]
    exact ((List.takeWhile_prefix p).eq_of_length hall).symm
  · next hpart => rw [if_neg hpart]

theorem takeWhile_append_of_lt (h : ((w ++ x).takeWhile p).length < w.length) (t : List Char) :
    (w ++ t).takeWhile p = (w ++ x).takeWhile p := by
  have hw := takeWhile_append_of_le (Nat.le_of_lt h)
  rw [hw] at h ⊢
  rw [List.takeWhile_append, if_neg (Nat.ne_of_lt h)]

/-- A run that ends by the place ends there in front of a gap, too. -/
theorem wordRun_gap (ht : IsGap t) (h : wordRun (w ++ x) ≤ w.length) :
    wordRun (w ++ t) = wordRun (w ++ x) := by
  obtain ⟨d, rest, rfl, -⟩ := ht
  rw [wordRun, wordRun, takeWhile_append_of_le h, List.takeWhile_append]
  split
  · next hall =>
    rw [List.takeWhile_cons_of_neg (by decide), List.append_nil]
    exact hall.symm
  · rfl

theorem charTail_pair (a b : Char) : charTail [a, b] =
    if b = '\'' ∧ a ≠ '\'' ∧ a ≠ '\\' then some 2 else none := by
  by_cases hb : b = '\'' <;> by_cases ha : a = '\'' <;> by_cases ha' : a = '\\' <;>
    simp [charTail, *]

theorem charTail_cons (a b d : Char) (rest : List Char) : charTail (a :: b :: d :: rest) =
    if a = '\\' ∧ d = '\'' then some 3
    else if b = '\'' ∧ a ≠ '\'' ∧ a ≠ '\\' then some 2 else none := by
  by_cases hd : d = '\'' <;> by_cases hb : b = '\'' <;> by_cases ha : a = '\'' <;>
    by_cases ha' : a = '\\' <;> simp [charTail, *]

theorem two_le_charTail {u : List Char} {m : Nat} (h : charTail u = some m) : 2 ≤ m := by
  rcases u with _ | ⟨a, _ | ⟨b, _ | ⟨d, u⟩⟩⟩
  · cases h
  · simp [charTail] at h
  · rw [charTail_pair] at h
    grind
  · rw [charTail_cons] at h
    grind

/-- A character that ends by the place ends there in front of a gap, too. -/
theorem charTail_gap (ht : IsGap t) (h : ∀ m, charTail (w ++ x) = some m → m ≤ w.length) :
    charTail (w ++ t) = charTail (w ++ x) := by
  obtain ⟨e, rest, rfl, he⟩ := ht
  rcases w with _ | ⟨a, _ | ⟨b, _ | ⟨d, w⟩⟩⟩
  · have hx : charTail ([] ++ x) = none := by
      refine Option.eq_none_iff_forall_ne_some.mpr fun m hm ↦ ?_
      have hle := h m hm
      have hpos := two_le_charTail hm
      rw [List.length_nil] at hle
      omega
    rw [hx, List.nil_append]
    cases rest with
    | nil => rw [charTail_pair, if_neg (fun h ↦ he h.1)]
    | cons => rw [charTail_cons, if_neg (by simp), if_neg (fun h ↦ he h.1)]
  · have hx : charTail ([a] ++ x) = none := by
      refine Option.eq_none_iff_forall_ne_some.mpr fun m hm ↦ ?_
      have hle := h m hm
      have hpos := two_le_charTail hm
      rw [List.length_singleton] at hle
      omega
    rw [hx, List.cons_append, List.nil_append, charTail_cons, if_neg (fun h ↦ he h.2),
      if_neg (by simp)]
  · simp only [List.cons_append, List.nil_append] at h ⊢
    rw [charTail_cons, if_neg (by simp)]
    cases x with
    | nil => rw [charTail_pair]
    | cons d x =>
      have hshort : ¬ (a = '\\' ∧ d = '\'') := fun hlong ↦
        absurd (h 3 (by rw [charTail_cons, if_pos hlong])) (by simp)
      rw [charTail_cons, if_neg hshort]
  · simp only [List.cons_append, charTail_cons]

/-! ### Comments -/

theorem measureComment_gap_some (h : measureComment c (w ++ x) = some (kind, n))
    (hn : n ≤ w.length + 1) (hline : c = '/' → w.head? = some '/' → n ≤ w.length) :
    measureComment c (w ++ t) = some (kind, n) := by
  rw [measureComment.eq_def] at h
  split at h
  · next more hmore =>
    obtain ⟨rfl, rfl⟩ := Prod.mk.inj (Option.some.inj h)
    cases w with
    | nil =>
      rw [List.length_nil] at hn
      omega
    | cons d w =>
      rw [List.cons_append] at hmore
      obtain ⟨rfl, rfl⟩ := List.cons.inj hmore
      have hlt := hline rfl rfl
      rw [List.length_cons] at hlt
      rw [List.cons_append, measureComment, takeWhile_append_of_lt (x := x) (by omega) t]
  · next more hmore =>
    obtain ⟨m, hm, heq⟩ := Option.map_eq_some_iff.mp h
    obtain ⟨rfl, rfl⟩ := Prod.mk.inj heq
    cases w with
    | nil =>
      rw [List.length_nil] at hn
      omega
    | cons d w =>
      rw [List.cons_append] at hmore
      obtain ⟨rfl, rfl⟩ := List.cons.inj hmore
      rw [List.length_cons] at hn
      have hw := (delimits_commentTail w x m).mpr ⟨hm, by omega⟩
      rw [List.cons_append, measureComment, delimits_commentTail.append hw t]
      rfl
  · cases h

theorem measureComment_gap_none (ht : IsGap t) (h : measureComment c (w ++ x) = none)
    (hopen : ¬ (c = '/' ∧ w.head? = some '*')) : measureComment c (w ++ t) = none := by
  obtain ⟨e, rest, rfl, -⟩ := ht
  rw [measureComment.eq_def]
  split
  · next more hmore =>
    cases w with
    | nil => exact absurd (List.cons.inj hmore).1 (by decide)
    | cons d w =>
      rw [List.cons_append] at hmore
      obtain ⟨rfl, -⟩ := List.cons.inj hmore
      rw [List.cons_append, measureComment] at h
      cases h
  · next more hmore =>
    cases w with
    | nil => exact absurd (List.cons.inj hmore).1 (by decide)
    | cons d w =>
      rw [List.cons_append] at hmore
      obtain ⟨rfl, -⟩ := List.cons.inj hmore
      exact absurd ⟨rfl, rfl⟩ hopen
  · rfl

/-! ### Strings and characters -/

/-- A string begins with the character. -/
def BeginsString (c : Char) (rest : List Char) : Prop :=
  c = '"' ∨ c = 'b' ∧ rest.head? = some '"'

theorem measureQuoted_gap_some (ht : IsGap t) (h : measureQuoted c (w ++ x) = some (kind, n))
    (hn : n ≤ w.length + 1) : measureQuoted c (w ++ t) = some (kind, n) := by
  rw [measureQuoted.eq_def] at h
  split at h
  · obtain ⟨m, hm, heq⟩ := Option.map_eq_some_iff.mp h
    obtain ⟨rfl, rfl⟩ := Prod.mk.inj heq
    have hw := (delimits_stringTail w x m).mpr ⟨hm, by omega⟩
    rw [measureQuoted, delimits_stringTail.append hw t]
    rfl
  · obtain ⟨m, hm, heq⟩ := Option.map_eq_some_iff.mp h
    obtain ⟨rfl, rfl⟩ := Prod.mk.inj heq
    have hle (m' : Nat) (hm' : charTail (w ++ x) = some m') : m' ≤ w.length := by
      rw [hm] at hm'
      obtain rfl := Option.some.inj hm'
      omega
    rw [measureQuoted, charTail_gap ht hle, hm]
    rfl
  · next more hmore =>
    obtain ⟨m, hm, heq⟩ := Option.map_eq_some_iff.mp h
    obtain ⟨rfl, rfl⟩ := Prod.mk.inj heq
    cases w with
    | nil =>
      rw [List.length_nil] at hn
      omega
    | cons d w =>
      rw [List.cons_append] at hmore
      obtain ⟨rfl, rfl⟩ := List.cons.inj hmore
      rw [List.length_cons] at hn
      have hw := (delimits_stringTail w x m).mpr ⟨hm, by omega⟩
      rw [List.cons_append, measureQuoted, delimits_stringTail.append hw t]
      rfl
  · next more hmore =>
    obtain ⟨m, hm, heq⟩ := Option.map_eq_some_iff.mp h
    obtain ⟨rfl, rfl⟩ := Prod.mk.inj heq
    cases w with
    | nil =>
      rw [List.length_nil] at hn
      omega
    | cons d w =>
      rw [List.cons_append] at hmore
      obtain ⟨rfl, rfl⟩ := List.cons.inj hmore
      rw [List.length_cons] at hn
      have hle (m' : Nat) (hm' : charTail (w ++ x) = some m') : m' ≤ w.length := by
        rw [hm] at hm'
        obtain rfl := Option.some.inj hm'
        omega
      rw [List.cons_append, measureQuoted, charTail_gap ht hle, hm]
      rfl
  · cases h

theorem measureQuoted_gap_none (ht : IsGap t) (h : measureQuoted c (w ++ x) = none)
    (hopen : ¬ BeginsString c w) : measureQuoted c (w ++ t) = none := by
  have hnone {u : List Char} (hu : charTail (u ++ x) = none) : charTail (u ++ t) = none := by
    rw [charTail_gap ht (fun m hm ↦ by rw [hu] at hm; cases hm), hu]
  rw [measureQuoted.eq_def]
  split
  · exact absurd (.inl rfl) hopen
  · rw [measureQuoted, Option.map_eq_none_iff] at h
    rw [hnone h]
    rfl
  · next more hmore =>
    cases w with
    | nil =>
      obtain ⟨e, rest, rfl, -⟩ := ht
      exact absurd (List.cons.inj hmore).1 (by decide)
    | cons d w =>
      rw [List.cons_append] at hmore
      obtain ⟨rfl, -⟩ := List.cons.inj hmore
      exact absurd (.inr ⟨rfl, rfl⟩) hopen
  · next more hmore =>
    cases w with
    | nil =>
      obtain ⟨e, rest, rfl, -⟩ := ht
      exact absurd (List.cons.inj hmore).1 (by decide)
    | cons d w =>
      rw [List.cons_append] at hmore
      obtain ⟨rfl, rfl⟩ := List.cons.inj hmore
      rw [List.cons_append, measureQuoted, Option.map_eq_none_iff] at h
      rw [hnone h]
      rfl
  · rfl

/-! ### Words -/

theorem measureLifetime_gap (ht : IsGap t)
    (h : ∀ kind n, measureWord '\'' (w ++ x) = some (kind, n) → n ≤ w.length + 1) :
    measureWord '\'' (w ++ t) = measureWord '\'' (w ++ x) := by
  cases w with
  | nil =>
    obtain ⟨e, rest, rfl, -⟩ := ht
    rw [List.nil_append, List.nil_append, measureWord, if_neg (by decide), eq_comm]
    refine Option.eq_none_iff_forall_ne_some.mpr fun ⟨kind, n⟩ hword ↦ ?_
    have hn := h kind n hword
    rw [List.length_nil] at hn
    cases x with
    | nil => cases hword
    | cons s more =>
      rw [measureWord] at hword
      split at hword
      · obtain ⟨-, rfl⟩ := Prod.mk.inj (Option.some.inj hword)
        omega
      · cases hword
  | cons s w =>
    simp only [List.cons_append, measureWord] at h ⊢
    by_cases hs : isNameStart s = true
    · simp only [if_pos hs] at h ⊢
      have hn := h _ _ rfl
      rw [List.length_cons] at hn
      rw [wordRun_gap (x := x) ht (by omega)]
    · rw [if_neg hs, if_neg hs]

theorem measureWord_gap (ht : IsGap t)
    (h : ∀ kind n, measureWord c (w ++ x) = some (kind, n) → n ≤ w.length + 1) :
    measureWord c (w ++ t) = measureWord c (w ++ x) := by
  by_cases hquote : c = '\''
  · subst hquote
    exact measureLifetime_gap ht h
  have hrawWord (s : Char) (more : List Char) (hs : isNameStart s = true) :
      measureWord 'r' ('#' :: s :: more) = some (.ident, 3 + wordRun more) := by
    rw [measureWord, if_pos hs]
  by_cases hraw : ∃ s w', c = 'r' ∧ w = '#' :: s :: w' ∧ isNameStart s = true
  · obtain ⟨s, w', rfl, rfl, hs⟩ := hraw
    simp only [List.cons_append, hrawWord s _ hs] at h ⊢
    have hn := h _ _ rfl
    simp only [List.length_cons] at hn
    rw [wordRun_gap (x := x) ht (by omega)]
  · -- Otherwise no raw name begins here, in front of the gap or not.
    have hplain (s : Char) (more : List Char) (hc : c = 'r') (hs : w ++ x = '#' :: s :: more) :
        isNameStart s = false := by
      subst hc
      refine Bool.eq_false_iff.mpr fun hname ↦ ?_
      have hn := h _ _ (hs ▸ hrawWord s more hname)
      rcases w with _ | ⟨a, _ | ⟨b, w⟩⟩
      · rw [List.length_nil] at hn
        omega
      · rw [List.length_singleton] at hn
        omega
      · obtain ⟨rfl, htail⟩ := List.cons.inj hs
        obtain ⟨rfl, -⟩ := List.cons.inj htail
        exact hraw ⟨b, w, rfl, rfl, hname⟩
    have hgap (s : Char) (more : List Char) (hc : c = 'r') (hs : w ++ t = '#' :: s :: more) :
        isNameStart s = false := by
      obtain ⟨e, rest, rfl, -⟩ := ht
      rcases w with _ | ⟨a, _ | ⟨b, w⟩⟩
      · exact absurd (List.cons.inj hs).1 (by decide)
      · obtain ⟨-, htail⟩ := List.cons.inj hs
        obtain ⟨rfl, -⟩ := List.cons.inj htail
        rfl
      · obtain ⟨rfl, htail⟩ := List.cons.inj hs
        obtain ⟨rfl, -⟩ := List.cons.inj htail
        exact Bool.eq_false_iff.mpr fun hname ↦ hraw ⟨b, w, hc, rfl, hname⟩
    rw [measureWord_plain hquote hplain] at h ⊢
    rw [measureWord_plain hquote hgap]
    by_cases hname : isNameStart c = true
    · simp only [if_pos hname] at h ⊢
      rw [wordRun_gap (x := x) ht (by have := h _ _ rfl; omega)]
    · by_cases hdigit : c.isDigit = true
      · simp only [if_neg hname, if_pos hdigit] at h ⊢
        rw [wordRun_gap (x := x) ht (by have := h _ _ rfl; omega)]
      · simp only [if_neg hname, if_neg hdigit]

/-! ### Any piece -/

/-- **A piece that ends by the place ends there in front of a gap, too**, unless it is a line
comment that may go on, or the first character of a string or block comment that does not end. -/
theorem measure_gap (ht : IsGap t) (hblank : isBlank c = false)
    (hn : (measure c (w ++ x)).2 ≤ w.length + 1)
    (hline : c = '/' → w.head? = some '/' → (measure c (w ++ x)).2 ≤ w.length)
    (hcomment : c = '/' → w.head? = some '*' → measureComment c (w ++ x) ≠ none)
    (hstring : BeginsString c w → measureQuoted c (w ++ x) ≠ none) :
    measure c (w ++ t) = measure c (w ++ x) := by
  simp only [measure, if_neg (Bool.eq_false_iff.mp hblank)] at hn hline ⊢
  cases hx : measureComment c (w ++ x) with
  | some piece =>
    obtain ⟨kind, n⟩ := piece
    simp only [hx, Option.some_or, Option.getD_some] at hn hline ⊢
    rw [measureComment_gap_some hx hn hline, Option.some_or,
      Option.some_or, Option.getD_some]
  | none =>
    rw [hx, Option.none_or] at hn
    rw [measureComment_gap_none ht hx fun h ↦ hcomment h.1 h.2 hx, Option.none_or, Option.none_or]
    cases hy : measureQuoted c (w ++ x) with
    | some piece =>
      obtain ⟨kind, n⟩ := piece
      rw [hy, Option.some_or, Option.getD_some] at hn
      rw [measureQuoted_gap_some ht hy hn]
      rfl
    | none =>
      rw [hy, Option.none_or] at hn
      rw [measureQuoted_gap_none ht hy fun h ↦ hstring h hy, Option.none_or, Option.none_or,
        measureWord_gap ht]
      intro kind n hword
      rwa [hword, Option.getD_some] at hn

end Gap

/-! ### How long a piece is -/

theorem charTail_le {u : List Char} {m : Nat} (h : charTail u = some m) : m ≤ u.length := by
  rcases u with _ | ⟨a, _ | ⟨b, _ | ⟨d, u⟩⟩⟩
  · cases h
  · simp [charTail] at h
  · rw [charTail_pair] at h
    grind
  · rw [charTail_cons] at h
    grind

section Length

variable {c : Char} {rest : List Char} {piece : PieceKind × Nat}

theorem measureComment_bounds (h : measureComment c rest = some piece) :
    piece.1 ≠ .blank ∧ 1 ≤ piece.2 ∧ piece.2 ≤ rest.length + 1 := by
  rw [measureComment.eq_def] at h
  split at h
  · next more =>
    cases h
    have := length_takeWhile_le (· ≠ '\n') more
    simp only [List.length_cons]
    exact ⟨by simp, by omega, by omega⟩
  · next more =>
    obtain ⟨m, hm, rfl⟩ := Option.map_eq_some_iff.mp h
    have := delimits_commentTail.le hm
    simp only [List.length_cons]
    exact ⟨by simp, by omega, by omega⟩
  · cases h

theorem measureQuoted_bounds (h : measureQuoted c rest = some piece) :
    piece.1 ≠ .blank ∧ 1 ≤ piece.2 ∧ piece.2 ≤ rest.length + 1 := by
  rw [measureQuoted.eq_def] at h
  split at h
  · obtain ⟨m, hm, rfl⟩ := Option.map_eq_some_iff.mp h
    have := delimits_stringTail.le hm
    exact ⟨by simp, by dsimp only; omega, by dsimp only; omega⟩
  · obtain ⟨m, hm, rfl⟩ := Option.map_eq_some_iff.mp h
    have := charTail_le hm
    exact ⟨by simp, by dsimp only; omega, by dsimp only; omega⟩
  · obtain ⟨m, hm, rfl⟩ := Option.map_eq_some_iff.mp h
    have := delimits_stringTail.le hm
    simp only [List.length_cons]
    exact ⟨by simp, by omega, by omega⟩
  · obtain ⟨m, hm, rfl⟩ := Option.map_eq_some_iff.mp h
    have := charTail_le hm
    simp only [List.length_cons]
    exact ⟨by simp, by omega, by omega⟩
  · cases h

theorem measureWord_bounds (h : measureWord c rest = some piece) :
    piece.1 ≠ .blank ∧ 1 ≤ piece.2 ∧ piece.2 ≤ rest.length + 1 := by
  have hrun (u : List Char) : wordRun u ≤ u.length := length_takeWhile_le isWordChar u
  rw [measureWord.eq_def] at h
  split at h
  · next s more =>
    split at h
    · cases h
      have := hrun more
      simp only [List.length_cons]
      exact ⟨by simp, by omega, by omega⟩
    · cases h
  · next s more =>
    split at h
    · cases h
      have := hrun more
      simp only [List.length_cons]
      exact ⟨by simp, by omega, by omega⟩
    · cases h
      exact ⟨by simp, Nat.le_refl 1, Nat.le_add_left 1 _⟩
  · have := hrun rest
    split at h
    · cases h
      exact ⟨by simp, by dsimp only; omega, by dsimp only; omega⟩
    · split at h
      · cases h
        exact ⟨by simp, by dsimp only; omega, by dsimp only; omega⟩
      · cases h

theorem measure_bounds (hc : isBlank c = false) (rest : List Char) :
    (measure c rest).1 ≠ .blank ∧ 1 ≤ (measure c rest).2 ∧
      (measure c rest).2 ≤ rest.length + 1 := by
  rw [measure, if_neg (Bool.eq_false_iff.mp hc)]
  cases hpiece : ((measureComment c rest).or (measureQuoted c rest)).or (measureWord c rest) with
  | none => exact ⟨by simp, Nat.le_refl 1, Nat.le_add_left 1 _⟩
  | some piece =>
    rw [Option.getD_some]
    rcases Option.or_eq_some_iff.mp hpiece with hpiece | ⟨-, hword⟩
    · rcases Option.or_eq_some_iff.mp hpiece with hcomment | ⟨-, hquoted⟩
      · exact measureComment_bounds hcomment
      · exact measureQuoted_bounds hquoted
    · exact measureWord_bounds hword

end Length

end Spelling
end NodeSchema
