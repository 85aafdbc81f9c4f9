import NodeSchema.Proofs.Rust.Lexeme.Extent
import NodeSchema.Text.Utf8

/-!
# Runs of lexemes

`Run after ls` says that lexemes are cut off the text that they make up together, with the given
characters behind it.  A text is cut into lexemes exactly if they are a run with nothing behind
(`scanAfter_eq_some_iff`), and runs can be cut and put together (`run_append`).

A mark is cut in the same way wherever it stands (`run_mark`), and so are a word (`run_word`) and a
blank (`run_blank`) in front of what ends them.
-/

set_option autoImplicit false

namespace NodeSchema
namespace Rust

/-- The lexeme stands between tokens. -/
def Lexeme.IsGap (l : Lexeme) : Prop := l.kind = .blank ∨ l.kind = .comment

namespace Lexeme

open Text

theorem isGap_nil : ∀ l ∈ ([] : List Lexeme), l.IsGap := fun _ h ↦ absurd h List.not_mem_nil

/-- Lexemes that are cut off their text when the given characters stand behind it. -/
inductive Run (after : List Char) : List Lexeme → Prop
  | nil : Run after []
  | cons {kind : LexemeKind} {c : Char} {u : List Char} {ls : List Lexeme} {n : Nat}
      (hmeasure : measure c (u ++ (flatten ls ++ after)) = some (kind, n))
      (htake : (u ++ (flatten ls ++ after)).take (n - 1) = u) (hls : Run after ls) :
      Run after (⟨kind, c :: u⟩ :: ls)

theorem flatten_cons (l : Lexeme) (ls : List Lexeme) : flatten (l :: ls) = l.text ++ flatten ls :=
  List.flatMap_cons

theorem flatten_append (ls ms : List Lexeme) : flatten (ls ++ ms) = flatten ls ++ flatten ms :=
  List.flatMap_append

/-! ## Cutting a text -/

theorem scanAfter_eq_scanAfter_drop (skip : Nat) (cs : List Char) :
    scanAfter skip cs = scanAfter 0 (cs.drop skip) := by
  induction cs generalizing skip with
  | nil => cases skip <;> rfl
  | cons c cs ih =>
    cases skip with
    | zero => rfl
    | succ skip => exact ih skip

theorem run_of_scanAfter {skip : Nat} {cs : List Char} {ls : List Lexeme}
    (h : scanAfter skip cs = some ls) : Run [] ls := by
  induction cs generalizing skip ls with
  | nil =>
    cases h
    exact .nil
  | cons c cs ih =>
    cases skip with
    | succ skip => exact ih h
    | zero =>
      rw [scanAfter] at h
      split at h
      · cases h
      · next kind n hmeasure =>
        obtain ⟨tail, htail, rfl⟩ := Option.map_eq_some_iff.mp h
        have hflat := flatten_scanAfter _ _ _ htail
        have hcs : cs.take (n - 1) ++ (flatten tail ++ []) = cs := by
          rw [List.append_nil, hflat, List.take_append_drop]
        exact .cons (by rw [hcs]; exact hmeasure) (by rw [hcs]) (ih htail)

theorem scanAfter_of_run {ls : List Lexeme} (h : Run [] ls) :
    scanAfter 0 (flatten ls) = some ls := by
  induction h with
  | nil => rfl
  | @cons kind c u ls n hmeasure htake _ ih =>
    rw [List.append_nil] at hmeasure htake
    have hdrop : (u ++ flatten ls).drop (n - 1) = flatten ls := by
      have := List.take_append_drop (n - 1) (u ++ flatten ls)
      rw [htake] at this
      exact List.append_cancel_left this
    rw [flatten_cons, List.cons_append, scanAfter, hmeasure]
    simp only [htake, scanAfter_eq_scanAfter_drop (n - 1), hdrop, ih, Option.map_some]

/-- A text is cut into lexemes exactly if they are a run and make the text up. -/
theorem scanAfter_eq_some_iff {cs : List Char} {ls : List Lexeme} :
    scanAfter 0 cs = some ls ↔ flatten ls = cs ∧ Run [] ls := by
  constructor
  · exact fun h ↦ ⟨flatten_scanAfter _ _ _ h, run_of_scanAfter h⟩
  · rintro ⟨rfl, h⟩
    exact scanAfter_of_run h

/-! ## Cutting and joining runs -/

theorem run_append {after : List Char} {ls ms : List Lexeme} :
    Run after (ls ++ ms) ↔ Run (flatten ms ++ after) ls ∧ Run after ms := by
  induction ls with
  | nil => exact ⟨fun h ↦ ⟨.nil, h⟩, fun h ↦ h.2⟩
  | cons l ls ih =>
    rw [List.cons_append]
    constructor
    · intro h
      cases h with
      | cons hmeasure htake hls =>
        rw [flatten_append, List.append_assoc] at hmeasure htake
        exact ⟨.cons hmeasure htake (ih.mp hls).1, (ih.mp hls).2⟩
    · rintro ⟨h, hms⟩
      cases h with
      | cons hmeasure htake hls =>
        rw [← List.append_assoc (flatten ls), ← flatten_append] at hmeasure htake
        exact .cons hmeasure htake (ih.mpr ⟨hls, hms⟩)

theorem run_cons {after : List Char} {l : Lexeme} {ls : List Lexeme} :
    Run after (l :: ls) ↔ Run (flatten ls ++ after) [l] ∧ Run after ls :=
  @run_append after [l] ls

/-! ## Whole texts -/

theorem eq_append_of_opening {kind : LexemeKind} {n : Nat} {cs : List Char}
    {tail ls ms : List Lexeme} {m : Lexeme} (h : opening kind n cs tail = ls ++ m :: ms)
    (hm : m.kind ≠ kind) : ∃ ls', tail = ls' ++ m :: ms := by
  rw [opening] at h
  split at h
  · exact ⟨ls, h⟩
  · cases ls with
    | nil =>
      rw [List.nil_append] at h
      exact absurd (congrArg Lexeme.kind (List.cons.inj h).1).symm hm
    | cons l ls => exact ⟨ls, (List.cons.inj h).2⟩

/-- The lexemes from a mark on are a run: only the byte order mark and the interpreter line at the
very front are cut in another way. -/
theorem run_of_scan {cs : List Char} {ls ms : List Lexeme} {m : Lexeme}
    (h : scan cs = some (ls ++ m :: ms)) (hm : m.kind = .mark) : Run [] (m :: ms) := by
  obtain ⟨tail, htail, hopen⟩ := Option.map_eq_some_iff.mp h
  obtain ⟨ls, hls⟩ := eq_append_of_opening hopen (by rw [hm]; exact nofun)
  obtain ⟨ls, rfl⟩ := eq_append_of_opening hls (by rw [hm]; exact nofun)
  exact (run_append.mp (run_of_scanAfter htail)).2

theorem scan_eq_scanAfter {cs : List Char} (hmark : markLength cs = 0)
    (hline : interpreterLength cs = 0) : scan cs = scanAfter 0 cs := by
  have hopen (kind : LexemeKind) (ls : List Lexeme) : opening kind 0 cs ls = ls := rfl
  simp only [scan, hmark, List.drop_zero, hline, hopen, Option.map_id']

/-! ## Marks -/

/-- The marks that are cut off by themselves, whatever follows. -/
def IsLoneMark (c : Char) : Prop := isMark c = true ∧ c ∉ ['/', '\'']

instance : DecidablePred IsLoneMark := fun _ ↦ instDecidableAnd

theorem measure_of_isLoneMark {c : Char} (hc : IsLoneMark c) (rest : List Char) :
    measure c rest = some (.mark, 1) := by
  obtain ⟨hmark, hc⟩ := hc
  simp only [isMark, List.contains_eq_mem, List.mem_cons, List.not_mem_nil, or_false,
    decide_eq_true_eq] at hmark hc
  rcases hmark with h | h | h | h | h | h | h | h | h | h | h | h | h | h | h | h | h | h | h | h |
    h | h | h | h | h | h | h <;> subst h <;> first | rfl | exact absurd hc (by decide)

theorem run_mark {c : Char} (hc : IsLoneMark c) (after : List Char) :
    Run after [⟨.mark, [c]⟩] :=
  .cons (measure_of_isLoneMark hc _) rfl .nil

/-! ## Words and blanks -/

theorem run_word {c d : Char} {u : List Char} (hc : isIdentStart c = true) (hu : IsWordTail c u)
    (hd : EndsWord d) (t : List Char) : Run (d :: t) [⟨.word, c :: u⟩] :=
  .cons (measure_of_isWordTail hc hu hd t) (List.take_left' rfl) .nil

/-- A word holds nothing that stands for bytes that are not UTF-8. -/
theorem Run.ne_replacement_of_word {text : List Char} {ls : List Lexeme} {after : List Char}
    (h : Run after (⟨.word, text⟩ :: ls)) : ∀ x ∈ text, x ≠ replacement := by
  have hstart : isIdentStart replacement = false := by decide +kernel
  have hcontinue : isIdentContinue replacement = false := by decide +kernel
  have hne {p : Char → Bool} (hp : p replacement = false) {x : Char} (hx : p x = true) :
      x ≠ replacement := by
    rintro rfl
    rw [hp] at hx
    cases hx
  cases h with
  | @cons _ c u _ n hmeasure htake hls =>
    have hu := isWordTail_of_measure hmeasure
    rw [htake] at hu
    refine List.forall_mem_cons.mpr ⟨hne hstart (isIdentStart_of_measure hmeasure), ?_⟩
    rcases hu with hu | ⟨-, s, w, rfl, hs, hw⟩
    · exact fun x hx ↦ hne hcontinue (hu x hx)
    · exact List.forall_mem_cons.mpr ⟨by decide, List.forall_mem_cons.mpr
        ⟨hne hstart hs, fun x hx ↦ hne hcontinue (hw x hx)⟩⟩

theorem run_blank {c : Char} (hc : isSpace c = true) {after : List Char}
    (h : ∀ d ∈ after.head?, isSpace d = false) : Run after [⟨.blank, [c]⟩] := by
  have hstop : after.takeWhile isSpace = [] := by
    cases after with
    | nil => rfl
    | cons d t =>
      rw [List.takeWhile_cons_of_neg (by rw [h d rfl]; exact Bool.false_ne_true)]
  refine .cons (n := 1) ?_ rfl .nil
  rw [measure, if_pos hc]
  show some (LexemeKind.blank, 1 + (after.takeWhile isSpace).length) = _
  rw [hstop]
  rfl

end Lexeme
end Rust
end NodeSchema
