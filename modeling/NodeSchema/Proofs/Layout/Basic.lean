import NodeSchema.Rust.Lexeme
import NodeSchema.Text.Blank

/-!
# Layouts of a spelling

A spelling is a sequence of words and operator characters (`Element`).  It is written down with
gaps between the elements, which only two words need (`Lays`).  The gaps tell nothing: a layout
without them is the text of the elements (`Lays.filter_eq`).

The readers of spellings cut a layout in ways of their own.  What they rely on is said of its
characters alone:

* `Lays.isLayoutChar` — none of them is a quote or a delimiter;
* `IsUncommented` — no comment begins among them;
* `Lays.startsWords` — where a word may go on but none came before, a word begins.
-/

set_option autoImplicit false

namespace NodeSchema

open Text

/-! ## Characters -/

/-- The ranges of the second list lie within those of the first, both lists being in order. -/
def covers : List (Nat × Nat) → List (Nat × Nat) → Bool
  | [], rs => rs.isEmpty
  | q :: qs, rs => covers qs (rs.dropWhile fun r ↦ q.1.ble r.1 && r.2.ble q.2)

theorem inRanges_of_covers {qs rs : List (Nat × Nat)} (h : covers qs rs = true) {c : Char}
    (hc : inRanges rs c = true) : inRanges qs c = true := by
  obtain ⟨r, hr, hle, hge⟩ := inRanges_iff.mp hc
  refine inRanges_iff.mpr ?_
  induction qs generalizing rs with
  | nil =>
    obtain rfl := List.isEmpty_iff.mp h
    cases hr
  | cons q qs ih =>
    rw [← List.takeWhile_append_dropWhile (p := fun r ↦ q.1.ble r.1 && r.2.ble q.2) (l := rs),
      List.mem_append] at hr
    rcases hr with hr | hr
    · have hqr := List.all_eq_true.mp List.all_takeWhile r hr
      rw [Bool.and_eq_true, Nat.ble_eq, Nat.ble_eq] at hqr
      exact ⟨q, List.mem_cons_self, Nat.le_trans hqr.1 hle, Nat.le_trans hge hqr.2⟩
    · obtain ⟨q', hq', hwithin⟩ := ih h (inRanges_iff.mpr ⟨r, hr, hle, hge⟩) hr
      exact ⟨q', List.mem_cons_of_mem q hq', hwithin⟩

theorem isIdentContinue_of_isIdentStart {c : Char} (h : isIdentStart c = true) :
    isIdentContinue c = true := by
  rw [isIdentStart, Bool.or_eq_true, Bool.or_eq_true, Bool.and_eq_true] at h
  rw [isIdentContinue, Bool.or_eq_true, Bool.or_eq_true, Bool.and_eq_true, Char.isAlphanum,
    Bool.or_eq_true]
  have hcovers : covers identContinueRanges identStartRanges = true := by decide +kernel
  exact h.imp (Or.imp .inl id) (And.imp id (inRanges_of_covers hcovers))

/-- The blank characters, one by one. -/
def blankChars : List Char :=
  (blankRanges.flatMap fun r ↦ List.range' r.1 (r.2 + 1 - r.1)).map Char.ofNat

theorem mem_blankChars {c : Char} (h : isBlank c = true) : c ∈ blankChars := by
  obtain ⟨r, hr, hle, hge⟩ := inRanges_iff.mp h
  refine List.mem_map.mpr ⟨c.toNat, List.mem_flatMap.mpr ⟨r, hr, ?_⟩, Char.ofNat_toNat c⟩
  rw [List.mem_range'_1]
  omega

/-- No range of the first list meets one of the second. -/
def areApart (qs rs : List (Nat × Nat)) : Bool :=
  qs.all fun q ↦ rs.all fun r ↦ q.2.blt r.1 || r.2.blt q.1

theorem inRanges_of_areApart {qs rs : List (Nat × Nat)} (h : areApart qs rs = true) {c : Char}
    (hc : inRanges qs c = true) : inRanges rs c = false := by
  obtain ⟨q, hq, hle, hge⟩ := inRanges_iff.mp hc
  refine Bool.eq_false_iff.mpr fun hrs ↦ ?_
  obtain ⟨r, hr, hle', hge'⟩ := inRanges_iff.mp hrs
  have hapart := List.all_eq_true.mp (List.all_eq_true.mp h q hq) r hr
  rw [Bool.or_eq_true, Nat.blt_eq, Nat.blt_eq] at hapart
  omega

/-- A blank character is neither one of the ASCII characters of words nor one of those past ASCII
that are apart from the blank ones. -/
theorem eq_false_of_isBlank {rs : List (Nat × Nat)} (h : areApart blankRanges rs = true) {c : Char}
    (hc : isBlank c = true) :
    (c.isAlphanum || c = '_' || (128 ≤ c.toNat && inRanges rs c)) = false := by
  have hascii : blankChars.all (fun c ↦ !(c.isAlphanum || c = '_')) = true := by decide
  rw [inRanges_of_areApart h hc, Bool.and_false, Bool.or_false]
  simpa using List.all_eq_true.mp hascii c (mem_blankChars hc)

theorem isIdentContinue_of_isBlank {c : Char} (h : isBlank c = true) :
    isIdentContinue c = false :=
  eq_false_of_isBlank (by decide +kernel) h

theorem isBlank_of_isSpace {c : Char} (h : Rust.Lexeme.isSpace c = true) : isBlank c = true := by
  rw [Rust.Lexeme.isSpace, Bool.or_eq_true, Bool.and_eq_true] at h
  rcases h with h | ⟨hle, hge⟩
  · rw [of_decide_eq_true h]
    decide
  · exact inRanges_iff.mpr ⟨(9, 13), by decide, of_decide_eq_true hle, of_decide_eq_true hge⟩

/-- The characters of operators. -/
def operatorChars : List Char :=
  ['+', '-', '*', '/', '%', '^', '!', '&', '|', '=', '<', '>', '@', '.', ',', ';', ':', '#', '?']

/-- What no character of an operator is. -/
theorem eq_false_of_mem_operatorChars {p : Char → Bool}
    (h : operatorChars.all (fun c ↦ !p c) = true) {c : Char} (hc : c ∈ operatorChars) :
    p c = false := by
  simpa using List.all_eq_true.mp h c hc

/-! ## Spellings -/

/-- A part of a spelling. -/
inductive Element
  /-- An identifier or keyword. -/
  | word (first : Char) (rest : List Char)
  /-- One character of an operator. -/
  | operator (c : Char)
deriving DecidableEq, Repr

namespace Element

/-- The characters of an element. -/
def text : Element → List Char
  | .word c u => c :: u
  | .operator c => [c]

/-- The element is a word. -/
def IsWord : Element → Prop
  | .word _ _ => True
  | .operator _ => False

/-- The characters are those that words and operators are made of. -/
def IsProper : Element → Prop
  | .word c u => isIdentStart c = true ∧ ∀ d ∈ u, isIdentContinue d = true
  | .operator c => c ∈ operatorChars

instance : DecidablePred IsProper
  | .word c u => inferInstanceAs
    (Decidable (isIdentStart c = true ∧ ∀ d ∈ u, isIdentContinue d = true))
  | .operator c => inferInstanceAs (Decidable (c ∈ operatorChars))

/-- Elements with nothing between them. -/
def joined (es : List Element) : List Char := es.flatMap text

end Element

/-- The elements are written one after the other with gaps around them, where two words do not
follow each other directly. -/
inductive Lays (isGap : Char → Bool) : List Element → List Char → Prop
  | nil {gap : List Char} (hgap : ∀ c ∈ gap, isGap c = true) : Lays isGap [] gap
  | cons {gap cs : List Char} {e : Element} {es : List Element} (hgap : ∀ c ∈ gap, isGap c = true)
      (hes : Lays isGap es cs)
      (hwords : e.IsWord → ∀ e' ∈ es.head?, e'.IsWord → ∃ c ∈ cs.head?, isGap c = true) :
      Lays isGap (e :: es) (gap ++ (e.text ++ cs))

/-- No comment begins among the characters. -/
def IsUncommented (cs : List Char) : Prop := ¬ ['/', '/'] <:+: cs ∧ ¬ ['/', '*'] <:+: cs

instance : DecidablePred IsUncommented :=
  fun cs ↦ inferInstanceAs (Decidable (¬ ['/', '/'] <:+: cs ∧ ¬ ['/', '*'] <:+: cs))

namespace IsUncommented

theorem of_append {u v : List Char} (h : IsUncommented (u ++ v)) : IsUncommented v :=
  ⟨fun hv ↦ h.1 (hv.trans (List.suffix_append u v).isInfix),
    fun hv ↦ h.2 (hv.trans (List.suffix_append u v).isInfix)⟩

/-- A bracket behind a layout begins no comment either. -/
theorem append_ne_cons {rest : List Char} (h : IsUncommented ('/' :: rest)) {d : Char}
    (hd : d = '/' ∨ d = '*') (t more : List Char) : rest ++ ']' :: t ≠ d :: more := by
  intro heq
  cases rest with
  | nil =>
    obtain ⟨rfl, -⟩ := List.cons.inj heq
    rcases hd with hd | hd <;> exact absurd hd (by decide)
  | cons d' rest =>
    obtain ⟨rfl, -⟩ := List.cons.inj heq
    rcases hd with rfl | rfl
    · exact h.1 ⟨[], rest, rfl⟩
    · exact h.2 ⟨[], rest, rfl⟩

end IsUncommented

/-! ## The characters of a layout -/

/-- A character that stands in a gap or that words and operators are made of. -/
def IsLayoutChar (isGap : Char → Bool) (c : Char) : Prop :=
  isGap c = true ∨ isIdentContinue c = true ∨ c ∈ operatorChars

/-- The quotes and the delimiters. -/
def foreignChars : List Char := ['"', '\'', '(', ')', '[', ']', '\x7b', '\x7d']

theorem IsLayoutChar.notMem_foreignChars {isGap : Char → Bool}
    (hgap : ∀ c, isGap c = true → isBlank c = true) {c : Char} (h : IsLayoutChar isGap c) :
    c ∉ foreignChars := by
  have hall : foreignChars.all (fun d ↦
      !(isBlank d || (isIdentContinue d || operatorChars.contains d))) = true := by decide
  intro hc
  have hd := List.all_eq_true.mp hall c hc
  simp only [Bool.not_eq_true', Bool.or_eq_false_iff] at hd
  rcases h with h | h | h
  · rw [hgap c h] at hd
    cases hd.1
  · rw [h] at hd
    cases hd.2.1
  · rw [List.contains_iff_mem.mpr h] at hd
    cases hd.2.2

/-- Where a word may go on, a word came before, of which `within` tells for the first character, or
one begins. -/
def StartsWords : Bool → List Char → Prop
  | _, [] => True
  | within, c :: cs =>
    (isIdentContinue c = true → within = true ∨ isIdentStart c = true) ∧
      StartsWords (isIdentContinue c) cs

theorem StartsWords.mono {within : Bool} {cs : List Char} (h : StartsWords false cs) :
    StartsWords within cs := by
  cases cs with
  | nil => trivial
  | cons c cs => exact ⟨fun hc ↦ .inr ((h.1 hc).resolve_left Bool.false_ne_true), h.2⟩

theorem startsWords_gap {within : Bool} {gap cs : List Char}
    (hgap : ∀ c ∈ gap, isIdentContinue c = false) (h : StartsWords false cs) :
    StartsWords within (gap ++ cs) := by
  induction gap generalizing within with
  | nil => exact h.mono
  | cons c gap ih =>
    obtain ⟨hc, hgap⟩ := List.forall_mem_cons.mp hgap
    refine ⟨fun h ↦ absurd h (by rw [hc]; exact Bool.false_ne_true), ?_⟩
    rw [hc]
    exact ih hgap

theorem startsWords_word {u cs : List Char} (hu : ∀ c ∈ u, isIdentContinue c = true)
    (h : StartsWords false cs) : StartsWords true (u ++ cs) := by
  induction u with
  | nil => exact h.mono
  | cons c u ih =>
    obtain ⟨hc, hu⟩ := List.forall_mem_cons.mp hu
    refine ⟨fun _ ↦ .inl rfl, ?_⟩
    rw [hc]
    exact ih hu

/-- Behind a word or a gap, words are begun as before. -/
theorem StartsWords.of_append {within : Bool} {u cs : List Char}
    (h : StartsWords within (u ++ cs)) (hcs : ∀ c ∈ cs.head?, isIdentContinue c = false) :
    StartsWords false cs := by
  induction u generalizing within with
  | nil =>
    cases cs with
    | nil => trivial
    | cons c cs => exact ⟨fun hc ↦ absurd hc (by rw [hcs c rfl]; exact Bool.false_ne_true), h.2⟩
  | cons c u ih => exact ih h.2

/-- Behind a gap, words are begun as before it. -/
theorem StartsWords.of_gap {gap cs : List Char} (h : StartsWords false (gap ++ cs))
    (hgap : ∀ c ∈ gap, isIdentContinue c = false) : StartsWords false cs := by
  induction gap with
  | nil => exact h
  | cons c gap ih =>
    obtain ⟨hc, hgap⟩ := List.forall_mem_cons.mp hgap
    have h := h.2
    rw [hc] at h
    exact ih h hgap

namespace Element.IsProper

variable {e : Element}

theorem isBlank_eq_false (h : e.IsProper) {c : Char} (hc : c ∈ e.text) : isBlank c = false := by
  cases e with
  | word first rest =>
    have hcontinue : isIdentContinue c = true := by
      rcases List.mem_cons.mp hc with rfl | hc
      · exact isIdentContinue_of_isIdentStart h.1
      · exact h.2 c hc
    refine Bool.eq_false_iff.mpr fun hblank ↦ ?_
    rw [isIdentContinue_of_isBlank hblank] at hcontinue
    cases hcontinue
  | operator o =>
    obtain rfl := List.mem_singleton.mp hc
    exact eq_false_of_mem_operatorChars (by decide) h

theorem isLayoutChar (h : e.IsProper) {isGap : Char → Bool} {c : Char} (hc : c ∈ e.text) :
    IsLayoutChar isGap c := by
  cases e with
  | word first rest =>
    rcases List.mem_cons.mp hc with rfl | hc
    · exact .inr (.inl (isIdentContinue_of_isIdentStart h.1))
    · exact .inr (.inl (h.2 c hc))
  | operator o =>
    obtain rfl := List.mem_singleton.mp hc
    exact .inr (.inr h)

theorem startsWords (h : e.IsProper) {within : Bool} {cs : List Char}
    (hcs : StartsWords false cs) : StartsWords within (e.text ++ cs) := by
  cases e with
  | word first rest =>
    refine ⟨fun _ ↦ .inr h.1, ?_⟩
    rw [isIdentContinue_of_isIdentStart h.1]
    exact startsWords_word h.2 hcs
  | operator o =>
    refine startsWords_gap (fun c hc ↦ ?_) hcs
    obtain rfl := List.mem_singleton.mp hc
    exact eq_false_of_mem_operatorChars (by decide) h

end Element.IsProper

namespace Lays

variable {isGap : Char → Bool} {es : List Element} {cs : List Char}

/-- **A layout without its gaps is the text of the elements.** -/
theorem filter_eq (h : Lays isGap es cs) (hgap : ∀ c, isGap c = true → isBlank c = true)
    (hes : ∀ e ∈ es, e.IsProper) : (cs.filter fun c ↦ !isGap c) = Element.joined es := by
  have hnone {gap : List Char} (h : ∀ c ∈ gap, isGap c = true) :
      (gap.filter fun c ↦ !isGap c) = [] := by
    refine List.filter_eq_nil_iff.mpr fun c hc ↦ ?_
    rw [h c hc]
    exact Bool.false_ne_true
  induction h with
  | nil h => exact hnone h
  | @cons gap cs e es h _ _ ih =>
    obtain ⟨he, hes⟩ := List.forall_mem_cons.mp hes
    have htext : (e.text.filter fun c ↦ !isGap c) = e.text := by
      refine List.filter_eq_self.mpr fun c hc ↦ ?_
      have hblank := he.isBlank_eq_false hc
      refine (Bool.not_eq_true' _).mpr (Bool.eq_false_iff.mpr fun h ↦ ?_)
      rw [hgap c h] at hblank
      cases hblank
    rw [List.filter_append, List.filter_append, hnone h, htext, ih hes, List.nil_append]
    rfl

theorem isLayoutChar (h : Lays isGap es cs) (hes : ∀ e ∈ es, e.IsProper) :
    ∀ c ∈ cs, IsLayoutChar isGap c := by
  induction h with
  | nil hgap => exact fun c hc ↦ .inl (hgap c hc)
  | cons hgap _ _ ih =>
    obtain ⟨he, hes⟩ := List.forall_mem_cons.mp hes
    intro c hc
    rcases List.mem_append.mp hc with hc | hc
    · exact .inl (hgap c hc)
    · rcases List.mem_append.mp hc with hc | hc
      · exact he.isLayoutChar hc
      · exact ih hes c hc

theorem startsWords (h : Lays isGap es cs) (hgap : ∀ c, isGap c = true → isBlank c = true)
    (hes : ∀ e ∈ es, e.IsProper) : StartsWords false cs := by
  induction h with
  | @nil gap h =>
    rw [← List.append_nil gap]
    exact startsWords_gap (fun c hc ↦ isIdentContinue_of_isBlank (hgap c (h c hc))) trivial
  | cons h _ _ ih =>
    obtain ⟨he, hes⟩ := List.forall_mem_cons.mp hes
    exact startsWords_gap (fun c hc ↦ isIdentContinue_of_isBlank (hgap c (h c hc)))
      (he.startsWords (ih hes))

end Lays

end NodeSchema
