import NodeSchema.Rust.Lexeme

/-!
# How far a lexeme looks

The length of a lexeme is found by looking at the characters from its beginning on.  A length that
ends with a delimiter of its own does not depend on anything behind it (`Delimits`).  A word goes on
for as long as it can, and stops in front of a closing bracket (`wordLength_fence`); a word is read
again in front of whatever ends words (`measure_of_isWordTail`).
-/

set_option autoImplicit false

namespace NodeSchema
namespace Rust
namespace Lexeme

open Text

/-! ## Lengths with an end of their own -/

/-- A length is found within itself: what follows does not change it, and no character past it is
needed. -/
def Delimits (f : List Char → Option Nat) : Prop :=
  ∀ (u t : List Char) (n : Nat), f u = some n ↔ f (u ++ t) = some n ∧ n ≤ u.length

theorem Delimits.le {f : List Char → Option Nat} (hf : Delimits f) {u : List Char} {n : Nat}
    (h : f u = some n) : n ≤ u.length :=
  ((hf u [] n).mp h).2

theorem Delimits.append {f : List Char → Option Nat} (hf : Delimits f) {u : List Char} {n : Nat}
    (h : f u = some n) (t : List Char) : f (u ++ t) = some n :=
  ((hf u t n).mp h).1

/-- A length that is counted on from another one. -/
theorem map_add_iff {a b : Option Nat} {l : Nat} (h : ∀ m, a = some m ↔ b = some m ∧ m ≤ l)
    (k n : Nat) : a.map (· + k) = some n ↔ b.map (· + k) = some n ∧ n ≤ l + k := by
  simp only [Option.map_eq_some_iff]
  constructor
  · rintro ⟨m, hm, rfl⟩
    have hm := (h m).mp hm
    exact ⟨⟨m, hm.1, rfl⟩, Nat.add_le_add_right hm.2 k⟩
  · rintro ⟨⟨m, hm, rfl⟩, hle⟩
    exact ⟨m, (h m).mpr ⟨hm, Nat.le_of_add_le_add_right hle⟩, rfl⟩

theorem length_takeWhile_le (p : Char → Bool) (u : List Char) :
    (u.takeWhile p).length ≤ u.length :=
  (List.takeWhile_prefix p).length_le

/-! ## In front of a closing bracket -/

/-- The closing brackets. -/
def IsCloser (d : Char) : Prop := d = ')' ∨ d = ']' ∨ d = '\x7d'

theorem IsCloser.not_isIdentContinue {d : Char} (hd : IsCloser d) : isIdentContinue d = false := by
  rcases hd with rfl | rfl | rfl <;> rfl

theorem takeWhile_fence {p : Char → Bool} {d : Char} (hp : p d = false) (u t : List Char) :
    (u ++ d :: t).takeWhile p = u.takeWhile p := by
  rw [List.takeWhile_append]
  split
  · next h =>
    rw [List.takeWhile_cons_of_neg (by rw [hp]; exact Bool.false_ne_true), List.append_nil,
      (List.takeWhile_prefix p).eq_of_length h]
  · rfl

theorem opensRaw_append (cs : List Char) {d : Char} (hd : IsCloser d) (t : List Char) :
    opensRaw (cs ++ d :: t) = opensRaw cs := by
  have hhash : d ≠ '#' ∧ d ≠ '"' := by rcases hd with rfl | rfl | rfl <;> decide
  rw [opensRaw, opensRaw]
  induction cs with
  | nil =>
    rw [List.nil_append, List.dropWhile_cons_of_neg (by simpa using hhash.1)]
    simpa using hhash.2
  | cons c cs ih =>
    by_cases hc : c = '#'
    · simpa [hc] using ih
    · simp [hc]

theorem wordLength_fence {d : Char} (hd : IsCloser d) (u t : List Char) :
    wordLength (u ++ d :: t) = wordLength u := by
  rw [wordLength, wordLength, takeWhile_fence hd.not_isIdentContinue]

theorem measureWord_r (rest : List Char) :
    measureWord 'r' rest =
      if opensRaw rest then (rawLength rest).map fun n ↦ (.rawString, n + 1)
      else
        match rest with
        | '#' :: s :: more =>
          if isIdentStart s then some (.word, 2 + wordLength more)
          else some (.word, wordLength rest)
        | _ => some (.word, wordLength rest) := by
  rcases rest with _ | ⟨a, rest⟩
  · rfl
  by_cases ha : a = '#'
  · subst ha
    rcases rest with _ | ⟨s, rest⟩
    · rfl
    · have hone : wordLength ('#' :: s :: rest) = 1 := rfl
      rw [hone]
      rfl
  by_cases hquote : a = '"'
  · subst hquote
    rfl
  · have hraw : opensRaw (a :: rest) = false := by simp [opensRaw, ha, hquote]
    rw [hraw]
    simp [measureWord, ha, hquote]

/-! ## Words -/

/-- What may follow the first character of a word. -/
def IsWordTail (c : Char) (u : List Char) : Prop :=
  (∀ x ∈ u, isIdentContinue x = true) ∨
    c = 'r' ∧ ∃ s w, u = '#' :: s :: w ∧ isIdentStart s = true ∧ ∀ x ∈ w, isIdentContinue x = true

/-- The characters that a word may be written in front of. -/
def EndsWord (d : Char) : Prop := isIdentContinue d = false ∧ d ∉ ['#', '"', '\'']

instance : DecidablePred EndsWord := fun _ ↦ instDecidableAnd

theorem le_toNat_of_isIdentStart {c : Char} (h : isIdentStart c = true) : 65 ≤ c.toNat := by
  rw [isIdentStart, Bool.or_eq_true, Bool.or_eq_true, Bool.and_eq_true] at h
  rcases h with (h | h) | ⟨h, -⟩
  · have halpha : c.isAlpha = (c.isUpper || c.isLower) := rfl
    have hupper : c.isUpper = decide (c.val ≥ 65 ∧ c.val ≤ 90) := rfl
    have hlower : c.isLower = (decide (c.val ≥ 97) && decide (c.val ≤ 122)) := rfl
    simp only [halpha, hupper, hlower, Bool.or_eq_true, Bool.and_eq_true, decide_eq_true_eq] at h
    rcases h with ⟨h, -⟩ | ⟨h, -⟩
    · exact h
    · exact Nat.le_trans (by decide) h
  · rw [of_decide_eq_true h]
    decide
  · exact Nat.le_trans (by decide) (of_decide_eq_true h)

theorem measure_of_isIdentStart {c : Char} (hc : isIdentStart c = true) (rest : List Char) :
    measure c rest = measureWord c rest := by
  have hle := le_toNat_of_isIdentStart hc
  have hne (d : Char) (hd : d.toNat < 65) : c ≠ d := by
    rintro rfl
    exact absurd hle (Nat.not_le.mpr hd)
  have hspace : ¬ isSpace c = true := by
    simp only [isSpace, Bool.or_eq_true, Bool.and_eq_true, decide_eq_true_eq]
    rintro (h | ⟨-, h⟩)
    · exact hne ' ' (by decide) h
    · omega
  have hdigit : ¬ c.isDigit = true := by
    simp only [Char.isDigit, Bool.and_eq_true, decide_eq_true_eq]
    rintro ⟨-, h⟩
    have : c.toNat ≤ 57 := h
    omega
  rw [measure, if_neg hspace, if_neg (by simp [hne '/' (by decide)]),
    if_neg (by simp [hne '/' (by decide)]), if_neg (hne '"' (by decide)),
    if_neg (hne '\'' (by decide)), if_neg hdigit, if_pos hc]

theorem isIdentStart_of_measure {c : Char} {rest : List Char} {n : Nat}
    (h : measure c rest = some (.word, n)) : isIdentStart c = true := by
  unfold measure at h
  repeat' split at h
  all_goals first
    | assumption
    | exact absurd h (by simp)

theorem isIdentContinue_of_mem_takeWhile {x : Char} {w : List Char}
    (hx : x ∈ w.takeWhile isIdentContinue) : isIdentContinue x = true :=
  List.all_eq_true.mp List.all_takeWhile x hx

theorem take_wordLength (w : List Char) :
    w.take (wordLength w - 1) = w.takeWhile isIdentContinue := by
  rw [wordLength, Nat.add_sub_cancel_left]
  exact (List.prefix_iff_eq_take.mp (List.takeWhile_prefix _)).symm

theorem isWordTail_nil (c : Char) : IsWordTail c [] := .inl nofun

theorem isWordTail_of_measure {c : Char} {rest : List Char} {n : Nat}
    (h : measure c rest = some (.word, n)) : IsWordTail c (rest.take (n - 1)) := by
  rw [measure_of_isIdentStart (isIdentStart_of_measure h)] at h
  have hplain (w : List Char) : IsWordTail c (w.take (wordLength w - 1)) := by
    rw [take_wordLength]
    exact .inl fun _ ↦ isIdentContinue_of_mem_takeWhile
  unfold measureWord at h
  repeat' split at h
  all_goals first
    | (cases h; exact hplain _)
    | (cases h; exact isWordTail_nil _)
    | (simp at h; done)
    | skip
  next s more _ hs =>
    cases h
    refine .inr ⟨rfl, s, more.takeWhile isIdentContinue, ?_, hs, fun _ ↦
      isIdentContinue_of_mem_takeWhile⟩
    rw [← take_wordLength, show 2 + wordLength more - 1 = wordLength more - 1 + 1 + 1 by
      rw [wordLength]; omega]
    rfl

theorem measureWord_of_isIdentContinue {c d : Char} {w : List Char} (hd : EndsWord d)
    (hw : ∀ x ∈ w, isIdentContinue x = true) (t : List Char) :
    measureWord c (w ++ d :: t) = some (.word, wordLength (w ++ d :: t)) := by
  have hother : d ≠ '#' ∧ d ≠ '"' ∧ d ≠ '\'' ∧ d ≠ 'r' := by
    obtain ⟨hstop, hd⟩ := hd
    simp only [List.mem_cons, List.not_mem_nil, or_false, not_or] at hd
    refine ⟨hd.1, hd.2.1, hd.2.2, ?_⟩
    rintro rfl
    exact absurd hstop (by decide)
  have hraw (w : List Char) (hw : ∀ x ∈ w, isIdentContinue x = true) :
      opensRaw (w ++ d :: t) = false := by
    cases w with
    | nil => simp [opensRaw, hother]
    | cons a w =>
      have ha := hw a List.mem_cons_self
      have hhash : a ≠ '#' := by rintro rfl; revert ha; decide
      have hquote : a ≠ '"' := by rintro rfl; revert ha; decide
      simp [opensRaw, hhash, hquote]
  cases w with
  | nil =>
    rw [List.nil_append]
    unfold measureWord
    grind
  | cons a w =>
    have ha := hw a List.mem_cons_self
    have hhash : a ≠ '#' := by rintro rfl; revert ha; decide
    have hquote : a ≠ '"' := by rintro rfl; revert ha; decide
    have hchar : a ≠ '\'' := by rintro rfl; revert ha; decide
    have hopens := hraw w fun x hx ↦ hw x (List.mem_cons_of_mem a hx)
    rw [List.cons_append]
    unfold measureWord
    grind

theorem wordLength_of_isIdentContinue {d : Char} {w : List Char} (hd : EndsWord d)
    (hw : ∀ x ∈ w, isIdentContinue x = true) (t : List Char) :
    wordLength (w ++ d :: t) = w.length + 1 := by
  rw [wordLength, List.takeWhile_append_of_pos hw,
    List.takeWhile_cons_of_neg (by rw [hd.1]; exact Bool.false_ne_true), List.append_nil,
    Nat.add_comm]

/-- A word is read again in front of another character. -/
theorem measure_of_isWordTail {c d : Char} {u : List Char} (hc : isIdentStart c = true)
    (hu : IsWordTail c u) (hd : EndsWord d) (t : List Char) :
    measure c (u ++ d :: t) = some (.word, u.length + 1) := by
  rw [measure_of_isIdentStart hc]
  rcases hu with hu | ⟨rfl, s, w, rfl, hs, hw⟩
  · rw [measureWord_of_isIdentContinue hd hu, wordLength_of_isIdentContinue hd hu]
  · have hlength := wordLength_of_isIdentContinue hd hw t
    have hhash : s ≠ '#' := by rintro rfl; revert hs; decide
    have hquote : s ≠ '"' := by rintro rfl; revert hs; decide
    have hraw : opensRaw ('#' :: s :: (w ++ d :: t)) = false := by simp [opensRaw, hhash, hquote]
    rw [measureWord_r, List.cons_append, List.cons_append, hraw]
    simp only [hs, hlength, List.length_cons, Bool.false_eq_true, if_false, if_true]
    rw [Nat.add_comm 2]

end Lexeme
end Rust
end NodeSchema
