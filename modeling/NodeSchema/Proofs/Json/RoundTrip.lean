import Mathlib.Data.List.Basic
import NodeSchema.Proofs.Json.Number
import NodeSchema.Proofs.Table

/-!
# JSON text is read back

What `Json.print` writes, `Json.read` reads as the same value.  This file proves it for the values
that a reader can give (`Json.IsReadable`): whole numbers that are not too long, canonical numbers,
and objects in which no name has two members.

* **Strings.**  `readStringFrom_escapeChar` is the step: the reader takes one character from each
  escape, whatever follows it, so the escapes of a text are read one after the other.  Characters
  past 16 bits are the reason that something must follow: the reader of units looks one character
  past the last digit.
* **Values.**  `ReadsBack v` says that `v` is read from its text wherever that stands, and how far
  the reader gets.  Lists and objects read back if their parts do (`ReadsBack.array`,
  `ReadsBack.object`), so `IsReadable.readsBack` is an induction on the value.
* **Fuel.**  The reader of a value needs no more fuel than its text has characters: every list and
  object pays for the readers inside it with its brackets.
-/

set_option autoImplicit false

namespace NodeSchema
namespace Json

/-! ## Units -/

theorem hexValue?_hexDigit : ∀ n, n < 16 → hexValue? (Text.hexDigit n) = some n := by decide

/-- A unit is written with four digits, which are read as the unit. -/
theorem hexDigits_unit {n : Nat} (h : n < 0x10000) :
    ∃ a b c d, Text.hexDigits 4 n = [a, b, c, d] ∧ unitValue? a b c d = some n := by
  refine ⟨_, _, _, _, rfl, ?_⟩
  have hlt (m : Nat) : hexValue? (Text.hexDigit (m % 16)) = some (m % 16) :=
    hexValue?_hexDigit _ (Nat.mod_lt _ (by decide))
  simp only [unitValue?, hlt, Option.bind_eq_bind, Option.bind_some, Option.some.injEq]
  omega

/-- A unit that is no half of a pair is read by itself. -/
theorem readUnits_single {n : Nat} (h : n < 0x10000) (hhigh : isHighHalf n = false)
    (hlow : isLowHalf n = false) (length offset : Nat) (c : Char) (rest : List Char) :
    readUnits length offset (Text.hexDigits 4 n ++ c :: rest) = .ok ([Char.ofNat n], 4) := by
  obtain ⟨d1, d2, d3, d4, hdigits, hvalue⟩ := hexDigits_unit h
  rw [hdigits]
  simp only [List.cons_append, List.nil_append, readUnits, hvalue, hhigh, hlow, ofUnit,
    Bool.false_and, Bool.or_false]
  rfl

/-- The two halves of a pair are read as one character. -/
theorem readUnits_pair {n m : Nat} (hn : n < 0x10000) (hm : m < 0x10000)
    (hhigh : isHighHalf n = true) (hlow : isLowHalf m = true) (length offset : Nat) (c : Char)
    (rest : List Char) :
    readUnits length offset (Text.hexDigits 4 n ++ (unitEscape m ++ c :: rest)) =
      .ok ([Char.ofNat (0x10000 + (n - 0xD800) * 1024 + (m - 0xDC00))], 10) := by
  obtain ⟨d1, d2, d3, d4, hdigits, hvalue⟩ := hexDigits_unit hn
  obtain ⟨e1, e2, e3, e4, hdigits', hvalue'⟩ := hexDigits_unit hm
  rw [unitEscape, hdigits, hdigits']
  simp only [List.cons_append, List.nil_append, readUnits, hvalue, hvalue', hhigh, hlow,
    decide_true, Bool.and_self, if_true]

/-! ## Strings -/

/-- The characters of an escape that was read are passed over. -/
theorem readStringFrom_skip (length start : Nat) (skipped rest : List Char) (n : Nat) :
    readStringFrom length start skipped.length (skipped ++ rest) n =
      readStringFrom length start 0 rest (n + skipped.length) := by
  induction skipped generalizing n with
  | nil => rfl
  | cons c cs ih =>
    show readStringFrom length start (cs.length + 1) (c :: (cs ++ rest)) n = _
    rw [readStringFrom, ih, List.length_cons, Nat.add_assoc, Nat.add_comm 1]

/-- What the reader of a string gives when it took one character and goes on after its text. -/
def readOn (length start : Nat) (c : Char) (text rest : List Char) (n : Nat) :
    Except ReadError (List Char × List Char × Nat) :=
  (readStringFrom length start 0 rest (n + text.length)).map fun r ↦ (c :: r.1, r.2)

/-- A letter after a backslash is read as the character that it stands for. -/
theorem readStringFrom_simple {e c : Char} (he : simpleEscape? e = some c) (hu : e ≠ 'u')
    (length start : Nat) (rest : List Char) (n : Nat) :
    readStringFrom length start 0 ('\\' :: e :: rest) n =
      readOn length start c ['\\', e] rest n := by
  have hskip := readStringFrom_skip length start [e] rest (n + 1)
  rw [readStringFrom, if_neg (by decide), if_pos rfl]
  simp only [if_neg hu, he]
  exact congrArg (Except.map _) hskip

/-- Units are read as the character that they are, with all their digits. -/
theorem readStringFrom_units {cs : List Char} {c : Char} {length n : Nat} (text : List Char)
    {rest : List Char} (htext : cs = text ++ rest)
    (hread : readUnits length (n + 1) cs = .ok ([c], text.length)) (start : Nat) :
    readStringFrom length start 0 ('\\' :: 'u' :: cs) n =
      readOn length start c ('\\' :: 'u' :: text) rest n := by
  have hskip := readStringFrom_skip length start ('u' :: text) rest (n + 1)
  rw [List.cons_append, ← htext] at hskip
  rw [readStringFrom, if_neg (by decide), if_pos rfl]
  simp only [if_true, hread]
  rw [readOn, show n + ('\\' :: 'u' :: text).length = n + 1 + ('u' :: text).length by
    simp only [List.length_cons]; omega]
  exact congrArg (Except.map _) hskip

/-- A character that stands for itself is read as itself. -/
theorem readStringFrom_plain {c : Char} (hquote : c ≠ '"') (hslash : c ≠ '\\')
    (hcontrol : 32 ≤ c.toNat) (length start : Nat) (rest : List Char) (n : Nat) :
    readStringFrom length start 0 (c :: rest) n = readOn length start c [c] rest n := by
  rw [readStringFrom.eq_def]
  simp only [if_neg hquote, if_neg hslash, if_neg (show ¬ c.toNat < 32 by omega)]
  rfl

/-- A character is below the last plane, and no half of a pair. -/
theorem toNat_bounds (c : Char) :
    c.toNat < 0x110000 ∧ isHighHalf c.toNat = false ∧ isLowHalf c.toNat = false := by
  have h : c.toNat < 0xD800 ∨ 0xDFFF < c.toNat ∧ c.toNat < 0x110000 := c.valid
  simp only [isHighHalf, isLowHalf, Bool.and_eq_false_iff, decide_eq_false_iff_not]
  omega

/-- What the escape of a character may be: a letter after a backslash, the character itself, a
unit, or the two halves of a pair. -/
theorem escapeChar_cases (c : Char) :
    (∃ e, escapeChar c = ['\\', e] ∧ simpleEscape? e = some c ∧ e ≠ 'u') ∨
    (escapeChar c = [c] ∧ c ≠ '"' ∧ c ≠ '\\' ∧ 32 ≤ c.toNat) ∨
    (escapeChar c = unitEscape c.toNat ∧ c.toNat < 0x10000) ∨
    (escapeChar c = unitEscape (0xD800 + (c.toNat - 0x10000) / 1024) ++
      unitEscape (0xDC00 + (c.toNat - 0x10000) % 1024) ∧ 0x10000 ≤ c.toNat) := by
  rw [escapeChar]
  by_cases h1 : c = '"'
  · subst h1; exact .inl ⟨'"', rfl, rfl, by decide⟩
  by_cases h2 : c = '\\'
  · subst h2; exact .inl ⟨'\\', rfl, rfl, by decide⟩
  by_cases h3 : c = '\n'
  · subst h3; exact .inl ⟨'n', rfl, rfl, by decide⟩
  by_cases h4 : c = '\r'
  · subst h4; exact .inl ⟨'r', rfl, rfl, by decide⟩
  by_cases h5 : c = '\t'
  · subst h5; exact .inl ⟨'t', rfl, rfl, by decide⟩
  rw [if_neg h1, if_neg h2, if_neg h3, if_neg h4, if_neg h5]
  by_cases h6 : c.toNat = 8
  · rw [if_pos h6]
    exact .inl ⟨'b', rfl, by rw [← Char.ofNat_toNat c, h6]; rfl, by decide⟩
  by_cases h7 : c.toNat = 12
  · rw [if_neg h6, if_pos h7]
    exact .inl ⟨'f', rfl, by rw [← Char.ofNat_toNat c, h7]; rfl, by decide⟩
  rw [if_neg h6, if_neg h7]
  by_cases h8 : 32 ≤ c.toNat ∧ c.toNat < 127
  · rw [if_pos (by simpa using h8)]
    exact .inr (.inl ⟨rfl, h1, h2, h8.1⟩)
  rw [if_neg (by simpa using h8)]
  by_cases h9 : c.toNat < 0x10000
  · rw [if_pos h9]
    exact .inr (.inr (.inl ⟨rfl, h9⟩))
  · rw [if_neg h9]
    exact .inr (.inr (.inr ⟨rfl, Nat.le_of_not_lt h9⟩))

/-- **One character is read from its escape**, if the text goes on after it. -/
theorem readStringFrom_escapeChar (length start : Nat) (c d : Char) (rest : List Char) (n : Nat) :
    readStringFrom length start 0 (escapeChar c ++ d :: rest) n =
      readOn length start c (escapeChar c) (d :: rest) n := by
  obtain ⟨hlt, hhigh, hlow⟩ := toNat_bounds c
  rcases escapeChar_cases c with ⟨e, htext, he, hu⟩ | ⟨htext, hquote, hslash, hcontrol⟩ |
    ⟨htext, hunit⟩ | ⟨htext, hpast⟩
  · rw [htext]
    exact readStringFrom_simple he hu length start _ n
  · rw [htext]
    exact readStringFrom_plain hquote hslash hcontrol length start _ n
  · have hread := readUnits_single hunit hhigh hlow length (n + 1) d rest
    rw [Char.ofNat_toNat] at hread
    rw [htext]
    exact readStringFrom_units (Text.hexDigits 4 c.toNat) rfl hread start
  · -- the two halves give the character back
    have hpair := readUnits_pair (n := 0xD800 + (c.toNat - 0x10000) / 1024)
      (m := 0xDC00 + (c.toNat - 0x10000) % 1024) (by omega) (by omega)
      (by simp only [isHighHalf, Bool.and_eq_true, decide_eq_true_eq]; omega)
      (by simp only [isLowHalf, Bool.and_eq_true, decide_eq_true_eq]; omega) length (n + 1)
      d rest
    rw [show 0x10000 + (0xD800 + (c.toNat - 0x10000) / 1024 - 0xD800) * 1024 +
      (0xDC00 + (c.toNat - 0x10000) % 1024 - 0xDC00) = c.toNat by omega, Char.ofNat_toNat] at hpair
    rw [htext]
    exact readStringFrom_units (Text.hexDigits 4 (0xD800 + (c.toNat - 0x10000) / 1024) ++
      unitEscape (0xDC00 + (c.toNat - 0x10000) % 1024)) (List.append_assoc ..) hpair start

/-- The escapes of a text are read as the text, up to the quote after them. -/
theorem readStringFrom_escaped (length start : Nat) (cs rest : List Char) (n : Nat) :
    readStringFrom length start 0 (cs.flatMap escapeChar ++ '"' :: rest) n =
      .ok (cs, rest, n + (cs.flatMap escapeChar).length + 1) := by
  induction cs generalizing n with
  | nil => rfl
  | cons c cs ih =>
    obtain ⟨d, more, hd⟩ := List.exists_cons_of_ne_nil
      (show cs.flatMap escapeChar ++ '"' :: rest ≠ [] by simp)
    rw [List.flatMap_cons, List.append_assoc, hd, readStringFrom_escapeChar, readOn, ← hd, ih,
      List.length_append, ← Nat.add_assoc]
    rfl

theorem readString_escaped (length : Nat) (s : String) (rest : List Char) (n : Nat) :
    readString length (s.toList.flatMap escapeChar ++ '"' :: rest) n =
      .ok (s, rest, n + (s.toList.flatMap escapeChar).length + 1) := by
  rw [readString, readStringFrom_escaped]
  show Except.ok (String.ofList s.toList, _) = _
  rw [String.ofList_toList]

/-! ## Blanks -/

theorem skipBlanks_of_not_blank {c : Char} (h : isJsonBlank c = false) (rest : List Char)
    (n : Nat) : skipBlanks (c :: rest) n = (c :: rest, n) := by
  rw [skipBlanks, h]
  rfl

theorem skipBlanks_append {blanks : List Char} (h : ∀ c ∈ blanks, isJsonBlank c = true)
    (rest : List Char) (n : Nat) :
    skipBlanks (blanks ++ rest) n = skipBlanks rest (n + blanks.length) := by
  induction blanks generalizing n with
  | nil => rfl
  | cons c cs ih =>
    rw [List.cons_append, skipBlanks, if_pos (h c (List.mem_cons_self ..)),
      ih fun d hd ↦ h d (List.mem_cons_of_mem c hd), List.length_cons, Nat.add_assoc,
      Nat.add_comm 1]

theorem isJsonBlank_newline (level : Nat) : ∀ c ∈ newline level, isJsonBlank c = true := by
  intro c hc
  rcases List.mem_cons.mp hc with rfl | hc
  · rfl
  · rw [List.eq_of_mem_replicate hc]; rfl

/-- The beginning of a line is passed over. -/
theorem skipBlanks_newline (level : Nat) {c : Char} (h : isJsonBlank c = false)
    (rest : List Char) (n : Nat) :
    skipBlanks (newline level ++ c :: rest) n = (c :: rest, n + (newline level).length) := by
  rw [skipBlanks_append (isJsonBlank_newline level), skipBlanks_of_not_blank h]

/-! ## Values -/

theorem ends_newline (level : Nat) (rest : List Char) : Ends (newline level ++ rest) := by
  intro c hc
  exact .inr (Option.some.inj hc).symm

theorem ends_comma (rest : List Char) : Ends (',' :: rest) := by
  intro c hc
  exact .inl (Option.some.inj hc).symm

/-- The value is read from its text, wherever that stands. -/
structure ReadsBack (v : Json) : Prop where
  /-- The text begins with an ASCII character that is no blank and ends no list. -/
  opens : ∀ level, ∃ c cs, v.printAt level = c :: cs ∧ c.toNat < 128 ∧
    isJsonBlank c = false ∧ c ≠ ']'
  /-- The reader gives the value and stops after its text. -/
  reads : ∀ (length level fuel : Nat) (rest : List Char) (n : Nat),
    (v.printAt level).length ≤ fuel → Ends rest →
      readValue length fuel (v.printAt level ++ rest) n =
        .ok (v, rest, n + (v.printAt level).length)

/-- The line on which a string begins is passed over up to the string. -/
theorem skipBlanks_printString (level : Nat) (s : String) (rest : List Char) (n : Nat) :
    skipBlanks (newline level ++ (printString s ++ rest)) n =
      (printString s ++ rest, n + (newline level).length) :=
  skipBlanks_newline level rfl _ n

/-- The line on which a value begins is passed over up to the value. -/
theorem ReadsBack.skip_line {v : Json} (hv : v.ReadsBack) (stop level : Nat)
    (rest : List Char) (n : Nat) :
    skipBlanks (newline stop ++ (v.printAt level ++ rest)) n =
      (v.printAt level ++ rest, n + (newline stop).length) := by
  obtain ⟨c, cs, htext, -, hblank, -⟩ := hv.opens level
  rw [htext, List.cons_append, skipBlanks_newline stop hblank]

/-- A text that begins with a character takes fuel, so that the reader may be opened. -/
theorem ReadsBack.of_succ {v : Json} (opens : ∀ level, ∃ c cs, v.printAt level = c :: cs ∧
      c.toNat < 128 ∧ isJsonBlank c = false ∧ c ≠ ']')
    (reads : ∀ (length level fuel : Nat) (rest : List Char) (n : Nat),
      (v.printAt level).length ≤ fuel + 1 → Ends rest →
        readValue length (fuel + 1) (v.printAt level ++ rest) n =
          .ok (v, rest, n + (v.printAt level).length)) : v.ReadsBack where
  opens := opens
  reads length level fuel rest n hfuel hends := by
    obtain ⟨c, cs, htext, -⟩ := opens level
    cases fuel with
    | zero => rw [htext] at hfuel; exact absurd hfuel (Nat.not_succ_le_zero _)
    | succ fuel => exact reads length level fuel rest n hfuel hends

theorem readsBack_null : null.ReadsBack :=
  .of_succ (fun _ ↦ ⟨'n', _, rfl, by decide⟩) fun _ _ _ _ _ _ _ ↦ rfl

theorem readsBack_bool (b : Bool) : (bool b).ReadsBack := by
  cases b
  · exact .of_succ (fun _ ↦ ⟨'f', _, rfl, by decide⟩) fun _ _ _ _ _ _ _ ↦ rfl
  · exact .of_succ (fun _ ↦ ⟨'t', _, rfl, by decide⟩) fun _ _ _ _ _ _ _ ↦ rfl

theorem readsBack_string (s : String) : (string s).ReadsBack := by
  refine .of_succ (fun _ ↦ ⟨'"', _, rfl, by decide⟩) fun length level fuel rest n _ _ ↦ ?_
  have hstring := readString_escaped length s rest (n + 1)
  simp only [printAt, printString, List.cons_append, List.append_assoc, List.nil_append,
    readValue, if_true, hstring, List.length_cons, List.length_append, List.length_nil]
  show Except.ok (string s, rest, _) = _
  congr 3
  omega

/-! ## Numbers -/

/-- The text of a numeral begins with a digit, or with a sign and a digit. -/
theorem Numeral.IsWellFormed.exists_cons {n : Numeral} (hn : n.IsWellFormed) :
    ∃ c cs, c.isDigit = true ∧ (n.text = c :: cs ∨ n.text = '-' :: c :: cs) := by
  obtain ⟨c, cs, hwhole, hc⟩ := hn.whole.exists_cons
  refine ⟨c, cs ++ (Numeral.fractionText n.fraction ++ Numeral.exponentText n.exponent), hc, ?_⟩
  rw [Numeral.text, Numeral.body, hwhole]
  cases n.negative with
  | true => exact .inr rfl
  | false => exact .inl rfl

theorem isDigit_bounds {c : Char} (hc : c.isDigit = true) : 48 ≤ c.toNat ∧ c.toNat ≤ 57 := by
  rw [Char.isDigit, Bool.and_eq_true, decide_eq_true_eq, decide_eq_true_eq] at hc
  exact hc

/-- A numeral is no word and nothing in brackets, so it is read as a number. -/
theorem readValue_text {n : Numeral} (hn : n.IsWellFormed) (length fuel : Nat) (rest : List Char)
    (offset : Nat) :
    readValue length (fuel + 1) (n.text ++ rest) offset = readNumber (n.text ++ rest) offset := by
  obtain ⟨c, cs, hc, htext⟩ := hn.exists_cons
  have hne (d : Char) (hd : d.isDigit = false) : d ≠ c := by
    rintro rfl
    exact absurd hc (Bool.eq_false_iff.mp hd)
  rcases htext with htext | htext
  · have hfind : (words.find? fun w ↦ w.1.isPrefixOf (c :: (cs ++ rest))) = none := by
      simp [words, List.isPrefixOf, hne 'n' rfl, hne 't' rfl, hne 'f' rfl, hne 'N' rfl,
        hne 'I' rfl, hne '-' rfl]
    rw [htext, List.cons_append, readValue.eq_def]
    simp only [if_neg (hne '"' rfl).symm, if_neg (hne '\x7b' rfl).symm, if_neg (hne '[' rfl).symm,
      hfind]
  · have hfind : (words.find? fun w ↦ w.1.isPrefixOf ('-' :: c :: (cs ++ rest))) = none := by
      simp [words, List.isPrefixOf, hne 'I' rfl]
    rw [htext, List.cons_append, List.cons_append, readValue.eq_def]
    simp only [if_neg (show '-' ≠ '"' by decide), if_neg (show '-' ≠ '\x7b' by decide),
      if_neg (show '-' ≠ '[' by decide), hfind]

/-- What is written as a numeral of its value is read back. -/
theorem readsBack_of_numeral {v : Json} {n : Numeral} (hn : n.IsWellFormed)
    (htext : ∀ level, v.printAt level = n.text) (hvalue : n.value = v) : v.ReadsBack := by
  refine .of_succ (fun level ↦ ?_) fun length level fuel rest offset _ hends ↦ ?_
  · obtain ⟨c, cs, hc, hcons | hcons⟩ := hn.exists_cons
    · have hbounds := isDigit_bounds hc
      refine ⟨c, cs, (htext level).trans hcons, by omega, ?_, ?_⟩
      · simp only [isJsonBlank, Bool.or_eq_false_iff, decide_eq_false_iff_not]
        refine ⟨⟨⟨?_, ?_⟩, ?_⟩, ?_⟩ <;> rintro rfl <;> exact absurd hc (by decide)
      · rintro rfl
        exact absurd hc (by decide)
    · exact ⟨'-', _, (htext level).trans hcons, by decide, rfl, by decide⟩
  · rw [htext level, readValue_text hn, readNumber_text hn hends, hvalue]

theorem readsBack_int {n : ℤ} (h : Binary64.decimalLength n.natAbs ≤ maxDigits) :
    (int n).ReadsBack :=
  readsBack_of_numeral (isWellFormed_numeralOfInt h) (fun _ ↦ (text_numeralOfInt n).symm)
    (value_numeralOfInt n)

theorem readsBack_float {x : Binary64} (h : x.IsCanonical) : (float x).ReadsBack := by
  match x with
  | .nan => exact .of_succ (fun _ ↦ ⟨'N', _, rfl, by decide⟩) fun _ _ _ _ _ _ _ ↦ rfl
  | .infinity false => exact .of_succ (fun _ ↦ ⟨'I', _, rfl, by decide⟩) fun _ _ _ _ _ _ _ ↦ rfl
  | .infinity true => exact .of_succ (fun _ ↦ ⟨'-', _, rfl, by decide⟩) fun _ _ _ _ _ _ _ ↦ rfl
  | .finite negative m e =>
    obtain ⟨n, hn, htext, hvalue⟩ := exists_numeral h
    exact readsBack_of_numeral hn (fun _ ↦ htext.symm) hvalue

/-! ## Lists and objects -/

theorem ends_printItems (level stop : Nat) (vs : List Json) (rest : List Char) :
    Ends (printItems level vs ++ (newline stop ++ rest)) := by
  cases vs with
  | nil => exact ends_newline stop rest
  | cons v vs => exact ends_comma _

theorem ends_printMembers (level stop : Nat) (ms : List (String × Json)) (rest : List Char) :
    Ends (printMembers level ms ++ (newline stop ++ rest)) := by
  cases ms with
  | nil => exact ends_newline stop rest
  | cons m ms => exact ends_comma _

/-- The items of a list are read up to its bracket.  The reader needs one more fuel than their
text has characters, because it hands one less to the reader of each item. -/
theorem readItems_print {v : Json} {vs : List Json} (hv : v.ReadsBack)
    (hvs : ∀ w ∈ vs, w.ReadsBack) (length level stop fuel : Nat) (rest : List Char) (n : Nat)
    (hfuel : (v.printAt level ++ printItems level vs).length < fuel) :
    readItems length fuel
        (v.printAt level ++ (printItems level vs ++ (newline stop ++ ']' :: rest))) n =
      .ok (v :: vs, rest,
        n + (v.printAt level ++ printItems level vs ++ newline stop).length + 1) := by
  induction vs generalizing v fuel n with
  | nil =>
    obtain ⟨fuel, rfl⟩ : ∃ m, fuel = m + 1 := ⟨fuel - 1, by omega⟩
    simp only [printItems, List.append_nil, List.nil_append] at hfuel ⊢
    rw [readItems, hv.reads length level fuel _ n (by omega) (ends_newline stop _)]
    simp only [skipBlanks_newline stop (show isJsonBlank ']' = false from rfl),
      List.length_append, Nat.add_assoc]
  | cons w ws ih =>
    obtain ⟨fuel, rfl⟩ : ∃ m, fuel = m + 1 := ⟨fuel - 1, by omega⟩
    have hw : w.ReadsBack := hvs w (List.mem_cons_self ..)
    have hends := ends_printItems level stop (w :: ws) (']' :: rest)
    simp only [printItems, List.cons_append, List.append_assoc, List.length_append,
      List.length_cons] at hfuel hends ⊢
    rw [readItems, hv.reads length level fuel _ n (by omega) hends]
    simp only [skipBlanks_of_not_blank (show isJsonBlank ',' = false from rfl), hw.skip_line]
    rw [ih hw (fun x hx ↦ hvs x (List.mem_cons_of_mem w hx)) fuel _
      (by rw [List.length_append]; omega)]
    show Except.ok (v :: w :: ws, rest, _) = _
    simp only [List.length_append]
    congr 3
    omega

/-- A member is read from its text; what follows tells whether there are more. -/
theorem readMembers_member {v : Json} (hv : v.ReadsBack) (name : String) (length level fuel : Nat)
    {rest : List Char} (n : Nat) (hfuel : (v.printAt level).length ≤ fuel)
    (hends : Ends rest) :
    readMembers length (fuel + 1)
        (printString name ++ (':' :: ' ' :: (v.printAt level ++ rest))) n =
      match skipBlanks rest (n + (printString name).length + 2 + (v.printAt level).length) with
      | ('\x7d' :: after, n') => .ok ([(name, v)], after, n' + 1)
      | (',' :: after, n') =>
        (readMembers length fuel (skipBlanks after (n' + 1)).1
          (skipBlanks after (n' + 1)).2).map fun r ↦ ((name, v) :: r.1, r.2)
      | (_, n') => .error (.flaw .comma n') := by
  have hstring := readString_escaped length name (':' :: ' ' :: (v.printAt level ++ rest)) (n + 1)
  have hcolon : ∀ m, skipBlanks (':' :: ' ' :: (v.printAt level ++ rest)) m =
      (':' :: ' ' :: (v.printAt level ++ rest), m) := skipBlanks_of_not_blank rfl _
  have hblank : ∀ m, skipBlanks (' ' :: (v.printAt level ++ rest)) m =
      (v.printAt level ++ rest, m + 1) := by
    intro m
    obtain ⟨c, cs, htext, -, hc, -⟩ := hv.opens level
    show skipBlanks ([' '] ++ (v.printAt level ++ rest)) m = _
    rw [skipBlanks_append (List.forall_mem_singleton.mpr rfl), htext, List.cons_append,
      skipBlanks_of_not_blank hc]
    rfl
  have hoffset : n + 1 + (name.toList.flatMap escapeChar).length + 1 + 1 + 1 =
      n + (printString name).length + 2 := by
    simp only [printString, List.length_cons, List.length_append, List.length_nil]
    omega
  rw [← hoffset]
  simp only [printString, List.cons_append, List.append_assoc, List.nil_append]
  rw [readMembers, hstring]
  simp only [hcolon, hblank, hv.reads length level fuel rest _ hfuel hends]
  rcases skipBlanks rest _ with ⟨_ | ⟨c, after⟩, m⟩
  · rfl
  · by_cases hbrace : c = '\x7d'
    · subst hbrace; rfl
    · by_cases hcomma : c = ','
      · subst hcomma; rfl
      · simp [hbrace, hcomma]

/-- The members of an object are read up to its brace. -/
theorem readMembers_print {name : String} {v : Json} {ms : List (String × Json)}
    (hv : v.ReadsBack) (hms : ∀ m ∈ ms, m.2.ReadsBack) (length level stop fuel : Nat)
    (rest : List Char) (n : Nat)
    (hfuel : (printString name ++ ':' :: ' ' :: v.printAt level
      ++ printMembers level ms).length < fuel) :
    readMembers length fuel (printString name ++ (':' :: ' ' :: (v.printAt level
      ++ (printMembers level ms ++ (newline stop ++ '\x7d' :: rest))))) n =
      .ok ((name, v) :: ms, rest, n + (printString name ++ ':' :: ' ' :: v.printAt level
        ++ printMembers level ms ++ newline stop).length + 1) := by
  induction ms generalizing name v fuel n with
  | nil =>
    obtain ⟨fuel, rfl⟩ : ∃ m, fuel = m + 1 := ⟨fuel - 1, by omega⟩
    simp only [printMembers, List.append_nil, List.nil_append, List.length_append,
      List.length_cons] at hfuel ⊢
    rw [readMembers_member hv name length level fuel n (by omega) (ends_newline stop _),
      skipBlanks_newline stop rfl]
    show Except.ok ([(name, v)], rest, _) = _
    congr 3
    omega
  | cons m ms ih =>
    obtain ⟨fuel, rfl⟩ : ∃ m, fuel = m + 1 := ⟨fuel - 1, by omega⟩
    have hends := ends_printMembers level stop (m :: ms) ('\x7d' :: rest)
    simp only [printMembers, List.cons_append, List.append_assoc, List.length_append,
      List.length_cons] at hfuel hends ⊢
    rw [readMembers_member hv name length level fuel n (by omega) hends,
      skipBlanks_of_not_blank rfl]
    simp only [skipBlanks_printString]
    rw [ih (hms m (List.mem_cons_self ..)) (fun x hx ↦ hms x (List.mem_cons_of_mem m hx)) fuel _
      (by simp only [List.length_append, List.length_cons]; omega)]
    show Except.ok ((name, v) :: m :: ms, rest, _) = _
    simp only [List.length_append, List.length_cons]
    congr 3
    omega

theorem ReadsBack.array {vs : List Json} (h : ∀ v ∈ vs, v.ReadsBack) :
    (Json.array vs).ReadsBack := by
  cases vs with
  | nil => exact .of_succ (fun _ ↦ ⟨'[', _, rfl, by decide⟩) fun _ _ _ _ _ _ _ ↦ rfl
  | cons v vs =>
    refine .of_succ (fun _ ↦ ⟨'[', _, rfl, by decide⟩) fun length level fuel rest n hfuel _ ↦ ?_
    have hv : v.ReadsBack := h v (List.mem_cons_self ..)
    have hvs : ∀ w ∈ vs, w.ReadsBack := fun w hw ↦ h w (List.mem_cons_of_mem v hw)
    simp only [printAt, List.cons_append, List.append_assoc, List.nil_append, List.length_cons,
      List.length_append, List.length_nil] at hfuel ⊢
    rw [readValue.eq_def]
    simp only [if_neg (show '[' ≠ '"' by decide), if_neg (show '[' ≠ '\x7b' by decide), if_true,
      hv.skip_line]
    rw [readItems_print hv hvs length (level + 1) level fuel rest _
      (by rw [List.length_append]; omega)]
    split
    · next after hclose =>
      -- the text of the first item does not begin with the bracket
      obtain ⟨c, cs, htext, -, -, hc⟩ := hv.opens (level + 1)
      rw [htext, List.cons_append] at hclose
      exact absurd (List.cons.inj hclose).1 hc
    · show Except.ok (Json.array (v :: vs), rest, _) = _
      simp only [List.length_append]
      congr 3
      omega

theorem ReadsBack.object {ms : List (String × Json)} (hnodup : (ms.map Prod.fst).Nodup)
    (h : ∀ m ∈ ms, m.2.ReadsBack) : (Json.object ms).ReadsBack := by
  cases ms with
  | nil => exact .of_succ (fun _ ↦ ⟨'\x7b', _, rfl, by decide⟩) fun _ _ _ _ _ _ _ ↦ rfl
  | cons m ms =>
    obtain ⟨name, v⟩ := m
    refine .of_succ (fun _ ↦ ⟨'\x7b', _, rfl, by decide⟩) fun length level fuel rest n hfuel _ ↦ ?_
    have hv : v.ReadsBack := h (name, v) (List.mem_cons_self ..)
    have hms : ∀ x ∈ ms, x.2.ReadsBack := fun x hx ↦ h x (List.mem_cons_of_mem _ hx)
    simp only [printAt, List.cons_append, List.append_assoc, List.nil_append, List.length_cons,
      List.length_append, List.length_nil] at hfuel ⊢
    rw [readValue.eq_def]
    simp only [if_neg (show '\x7b' ≠ '"' by decide), if_true, skipBlanks_printString]
    rw [readMembers_print hv hms length (level + 1) level fuel rest _
      (by simp only [List.length_append, List.length_cons]; omega)]
    show Except.ok (Json.object (Table.ofPairs ((name, v) :: ms)).entries, rest, _) = _
    rw [Table.entries_ofPairs hnodup]
    simp only [List.length_append, List.length_cons]
    congr 3
    omega

/-- A value as a reader can give it: its whole numbers are not too long, its other numbers are
canonical, and no object has two members of one name. -/
inductive IsReadable : Json → Prop
  | null : IsReadable null
  | bool (b : Bool) : IsReadable (bool b)
  | int {n : ℤ} (h : Binary64.decimalLength n.natAbs ≤ maxDigits) : IsReadable (int n)
  | float {x : Binary64} (h : x.IsCanonical) : IsReadable (float x)
  | string (s : String) : IsReadable (string s)
  | array {items : List Json} (h : ∀ v ∈ items, IsReadable v) : IsReadable (array items)
  | object {members : List (String × Json)} (hnodup : (members.map Prod.fst).Nodup)
      (h : ∀ m ∈ members, IsReadable m.2) : IsReadable (object members)

theorem IsReadable.readsBack {v : Json} (h : v.IsReadable) : v.ReadsBack := by
  induction h with
  | null => exact readsBack_null
  | bool b => exact readsBack_bool b
  | int h => exact readsBack_int h
  | float h => exact readsBack_float h
  | string s => exact readsBack_string s
  | array _ ih => exact .array ih
  | object hnodup _ ih => exact .object hnodup ih

/-- **A readable value is read from its text**, also with the line ended after it. -/
theorem read_print {v : Json} (h : v.IsReadable) : read (v.print ++ ['\n']) = .ok v := by
  obtain ⟨c, cs, htext, hascii, hblank, -⟩ := h.readsBack.opens 0
  have hread := h.readsBack.reads (v.print ++ ['\n']).length 0
    (2 * (v.print ++ ['\n']).length + 2) ['\n'] 0
    (by simp only [print, List.length_append]; omega) (ends_newline 0 [])
  rw [print, htext, List.cons_append] at hread ⊢
  rw [read, if_neg (by omega), skipBlanks_of_not_blank hblank]
  simp only [hread]
  rfl

end Json
end NodeSchema
