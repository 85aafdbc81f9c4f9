import NodeSchema.Json.Printer
import NodeSchema.Json.Reader
import NodeSchema.Proofs.Decimal.Shortest

/-!
# Numbers are read back from their text

A `Numeral` is a number taken apart: its sign, the digits before and after the point, and its
exponent.  `readNumber_text` says that the reader takes a numeral apart again, whatever ends it,
and what value it has.

* **Whole numbers** are written as a numeral without fraction and exponent (`numeralOfInt`).
* **Other numbers** are written from their shortest decimal, with a point among the digits or with
  an exponent (`exists_positional`, `exists_scientific`).  Either numeral has the value of the
  decimal, because moving zeros between the digits and the exponent changes nothing
  (`Binary64.ofDecimal_shift`), and the shortest decimal reads back.
-/

set_option autoImplicit false

namespace NodeSchema
namespace Json

open Binary64 (ofDecimal decimalLength)
open Decimal (trimZeros positional scientific)

/-! ## Digits -/

theorem digitsValue_eq (ds : List Char) : digitsValue ds = Nat.ofDigitChars 10 ds 0 := by
  rw [Nat.ofDigitChars_eq_foldl, digitsValue]
  simp only [Nat.mul_comm 10]
  rfl

theorem digitsValue_toDigits (n : Nat) : digitsValue (Nat.toDigits 10 n) = n := by
  rw [digitsValue_eq, Nat.ofDigitChars_ten_toDigits]

theorem digitsValue_append (ds es : List Char) :
    digitsValue (ds ++ es) = digitsValue ds * 10 ^ es.length + digitsValue es := by
  simp only [digitsValue_eq]
  rw [Nat.ofDigitChars_append, Nat.ofDigitChars_eq_ofDigitChars_zero, Nat.mul_comm]

theorem digitsValue_zeros (k : Nat) : digitsValue (List.replicate k '0') = 0 := by
  rw [digitsValue_eq, Nat.ofDigitChars_replicate_zero, Nat.mul_zero]

theorem digitsValue_zeros_append (k : Nat) (ds : List Char) :
    digitsValue (List.replicate k '0' ++ ds) = digitsValue ds := by
  rw [digitsValue_append, digitsValue_zeros, Nat.zero_mul, Nat.zero_add]

theorem digitsValue_append_zeros (ds : List Char) (k : Nat) :
    digitsValue (ds ++ List.replicate k '0') = digitsValue ds * 10 ^ k := by
  rw [digitsValue_append, digitsValue_zeros, List.length_replicate, Nat.add_zero]

/-- All characters are digits. -/
def AreDigits (ds : List Char) : Prop := ∀ c ∈ ds, c.isDigit = true

theorem areDigits_toDigits (n : Nat) : AreDigits (Nat.toDigits 10 n) :=
  fun _ hc ↦ Nat.isDigit_of_mem_toDigits (by decide) (by decide) hc

theorem areDigits_zeros (k : Nat) : AreDigits (List.replicate k '0') := by
  intro c hc
  rw [List.eq_of_mem_replicate hc]
  rfl

theorem AreDigits.append {ds es : List Char} (hds : AreDigits ds) (hes : AreDigits es) :
    AreDigits (ds ++ es) := by
  intro c hc
  exact (List.mem_append.mp hc).elim (hds c) (hes c)

theorem digitsValue_lt {ds : List Char} (h : AreDigits ds) : digitsValue ds < 10 ^ ds.length := by
  induction ds using List.reverseRecOn with
  | nil => decide
  | append_singleton ds c ih =>
    have hc := h c (List.mem_append_right ds (List.mem_singleton_self c))
    have hlt := ih fun d hd ↦ h d (List.mem_append_left _ hd)
    have hdigit : c.toNat - 48 < 10 := by
      rw [Char.isDigit, Bool.and_eq_true, decide_eq_true_eq, decide_eq_true_eq] at hc
      have hle : c.toNat ≤ 57 := hc.2
      omega
    have hvalue : digitsValue [c] = c.toNat - 48 := by
      show 0 * 10 + (c.toNat - 48) = _
      omega
    rw [digitsValue_append, hvalue, List.length_append, List.length_singleton, Nat.pow_succ]
    omega

/-- No digit comes next. -/
def NoDigit (rest : List Char) : Prop := ∀ c ∈ rest.head?, c.isDigit = false

theorem takeWhile_isDigit {ds rest : List Char} (hds : AreDigits ds) (hrest : NoDigit rest) :
    (ds ++ rest).takeWhile Char.isDigit = ds := by
  have hnone : rest.takeWhile Char.isDigit = [] := by
    cases rest with
    | nil => rfl
    | cons c cs => rw [List.takeWhile_cons, if_neg (by rw [hrest c rfl]; decide)]
  rw [List.takeWhile_append_of_pos hds, hnone, List.append_nil]

/-! ## Numerals -/

/-- The digits before the point: a zero alone, or digits that begin with another. -/
def IsWhole (ds : List Char) : Prop :=
  ds = ['0'] ∨ ∃ c cs, ds = c :: cs ∧ c ≠ '0' ∧ AreDigits (c :: cs)

theorem IsWhole.exists_cons {ds : List Char} (h : IsWhole ds) :
    ∃ c cs, ds = c :: cs ∧ c.isDigit = true := by
  rcases h with rfl | ⟨c, cs, rfl, -, hdigits⟩
  · exact ⟨'0', [], rfl, rfl⟩
  · exact ⟨c, cs, rfl, hdigits c (List.mem_cons_self ..)⟩

theorem wholeDigits_append {ds rest : List Char} (h : IsWhole ds) (hrest : NoDigit rest) :
    wholeDigits (ds ++ rest) = ds := by
  rcases h with rfl | ⟨c, cs, rfl, hzero, hdigits⟩
  · rfl
  · rw [List.cons_append, wholeDigits.eq_2 _ (by rintro _ ⟨⟩; exact hzero rfl), ← List.cons_append,
      takeWhile_isDigit hdigits hrest]

/-- A number taken apart: its sign, the digits before and after the point, and the sign and the
digits of its exponent. -/
structure Numeral where
  negative : Bool
  whole : List Char
  fraction : List Char
  exponent : Option (Bool × List Char)

namespace Numeral

/-- The point and the digits after it, if there are any. -/
def fractionText (ds : List Char) : List Char := if ds.isEmpty then [] else '.' :: ds

/-- The exponent with its mark, if there is one. -/
def exponentText : Option (Bool × List Char) → List Char
  | none => []
  | some (negative, ds) => 'e' :: (if negative then '-' else '+') :: ds

/-- The digits, with the point and the exponent. -/
def body (n : Numeral) : List Char :=
  n.whole ++ (fractionText n.fraction ++ exponentText n.exponent)

/-- The text of a numeral. -/
def text (n : Numeral) : List Char := if n.negative then '-' :: n.body else n.body

/-- The power of ten that an exponent stands for. -/
def power : Option (Bool × List Char) → ℤ
  | none => 0
  | some (negative, ds) => if negative then -(digitsValue ds : ℤ) else digitsValue ds

/-- The value of a numeral. -/
def value (n : Numeral) : Json :=
  if n.fraction = [] ∧ n.exponent = none then
    .int (if n.negative then -(digitsValue n.whole : ℤ) else digitsValue n.whole)
  else
    .float (ofDecimal n.negative (digitsValue (n.whole ++ n.fraction))
      (power n.exponent - n.fraction.length))

/-- The parts of a numeral are digits, and it is not too long to be read. -/
structure IsWellFormed (n : Numeral) : Prop where
  whole : IsWhole n.whole
  fraction : AreDigits n.fraction
  exponent : ∀ x ∈ n.exponent, x.2 ≠ [] ∧ AreDigits x.2
  short : n.fraction = [] → n.exponent = none → n.whole.length ≤ maxDigits

end Numeral

open Numeral (fractionText exponentText power)

/-- The text that may follow a value: nothing, a comma or the end of the line. -/
def Ends (rest : List Char) : Prop := ∀ c ∈ rest.head?, c = ',' ∨ c = '\n'

theorem Ends.noDigit {rest : List Char} (h : Ends rest) : NoDigit rest := by
  intro c hc
  rcases h c hc with rfl | rfl <;> rfl

/-- What follows the digits before the point begins with no digit. -/
theorem noDigit_fractionText {rest : List Char} (hrest : NoDigit rest) (ds : List Char) :
    NoDigit (fractionText ds ++ rest) := by
  rw [fractionText]
  split
  · exact hrest
  · intro c hc
    rw [← Option.some.inj hc]
    rfl

theorem noDigit_exponentText {rest : List Char} (hrest : NoDigit rest)
    (x : Option (Bool × List Char)) : NoDigit (exponentText x ++ rest) := by
  cases x with
  | none => exact hrest
  | some x =>
    intro c hc
    rw [← Option.some.inj hc]
    rfl

/-- The fraction ends before the exponent. -/
theorem fractionDigits_append {ds rest : List Char} (hds : AreDigits ds) (hrest : Ends rest)
    (x : Option (Bool × List Char)) :
    fractionDigits (fractionText ds ++ (exponentText x ++ rest)) = ds := by
  rw [fractionText]
  split
  · next hempty =>
    rw [List.isEmpty_iff.mp hempty, List.nil_append]
    cases x with
    | some x => rfl
    | none =>
      show fractionDigits rest = []
      cases rest with
      | nil => rfl
      | cons c cs => rcases hrest c rfl with rfl | rfl <;> rfl
  · exact takeWhile_isDigit hds (noDigit_exponentText hrest.noDigit x)

/-- The exponent ends with its last digit. -/
theorem exponentPart_append {x : Option (Bool × List Char)} {rest : List Char}
    (hx : ∀ y ∈ x, y.2 ≠ [] ∧ AreDigits y.2) (hrest : Ends rest) :
    exponentPart (exponentText x ++ rest) =
      x.map fun y ↦ (y.1, y.2, (exponentText (some y)).length) := by
  cases x with
  | none =>
    show exponentPart rest = none
    cases rest with
    | nil => rfl
    | cons c cs => rcases hrest c rfl with rfl | rfl <;> rfl
  | some y =>
    obtain ⟨hne, hdigits⟩ := hx y rfl
    have htake := takeWhile_isDigit hdigits hrest.noDigit
    have hlength : 1 + 1 + y.2.length = y.2.length + 1 + 1 := by omega
    obtain ⟨negative, ds⟩ := y
    cases negative
    all_goals
      simp only [exponentText, List.cons_append, exponentPart, htake, decide_true, Bool.true_or,
        if_true, List.isEmpty_iff, if_neg hne, List.length_cons, Option.map_some, hlength,
        Bool.false_eq_true, if_false]

/-- A numeral is read from its digits, whatever ends it. -/
theorem readUnsigned_body {n : Numeral} (hn : n.IsWellFormed) {rest : List Char}
    (hrest : Ends rest) (offset : Nat) :
    readUnsigned n.negative (n.body ++ rest) offset =
      .ok (n.value, rest, offset + n.text.length) := by
  obtain ⟨negative, whole, fraction, exponent⟩ := n
  obtain ⟨hwhole, hfraction, hexponent, hshort⟩ := hn
  dsimp only at hwhole hfraction hexponent hshort
  have hne : whole.isEmpty = false := by
    obtain ⟨c, cs, rfl, -⟩ := hwhole.exists_cons
    rfl
  have hwholeDigits :
      wholeDigits (whole ++ (fractionText fraction ++ (exponentText exponent ++ rest))) = whole :=
    wholeDigits_append hwhole (noDigit_fractionText (noDigit_exponentText hrest.noDigit _) _)
  have hwidth : (if fraction.isEmpty then 0 else fraction.length + 1) =
      (fractionText fraction).length := by
    rw [fractionText]; split <;> rfl
  have hlength : (Numeral.text ⟨negative, whole, fraction, exponent⟩).length =
      (if negative = true then 1 else 0) + whole.length + (fractionText fraction).length
        + (exponentText exponent).length := by
    cases negative <;> simp only [Numeral.text, Numeral.body, if_true, if_false, Bool.false_eq_true,
      List.length_cons, List.length_append] <;> omega
  rw [Numeral.body, List.append_assoc, List.append_assoc, readUnsigned, hlength]
  simp only [hwholeDigits, hne, List.drop_left, fractionDigits_append hfraction hrest,
    hwidth, exponentPart_append hexponent hrest, Bool.false_eq_true, if_false]
  cases exponent with
  | some y =>
    have hvalue : Numeral.value ⟨negative, whole, fraction, some y⟩ = .float (ofDecimal negative
        (digitsValue (whole ++ fraction)) (power (some y) - fraction.length)) :=
      if_neg fun h ↦ nomatch h.2
    simp only [Option.map_some, hvalue, List.drop_left, Nat.add_assoc]
    cases fraction <;> rfl
  | none =>
    cases fraction with
    | nil =>
      have hvalue : Numeral.value ⟨negative, whole, [], none⟩ =
          .int (if negative then -(digitsValue whole : ℤ) else digitsValue whole) := rfl
      simp only [Option.map_none, if_neg (not_lt.mpr (hshort rfl rfl)), hvalue]
      rfl
    | cons d ds => rfl

/-- **A numeral is read from its text**, whatever ends it. -/
theorem readNumber_text {n : Numeral} (hn : n.IsWellFormed) {rest : List Char}
    (hrest : Ends rest) (offset : Nat) :
    readNumber (n.text ++ rest) offset = .ok (n.value, rest, offset + n.text.length) := by
  have hbody := readUnsigned_body hn hrest offset
  rw [Numeral.text] at hbody ⊢
  cases hnegative : n.negative with
  | true =>
    rw [hnegative, if_pos rfl] at hbody
    rw [if_pos rfl]
    exact hbody
  | false =>
    rw [hnegative, if_neg Bool.false_ne_true] at hbody
    rw [if_neg Bool.false_ne_true, ← hbody]
    -- the text begins with a digit, hence with no sign
    obtain ⟨c, cs, hwhole, hc⟩ := hn.whole.exists_cons
    have hsign : c ≠ '-' := by rintro rfl; exact absurd hc (by decide)
    rw [Numeral.body, hwhole, List.cons_append, List.cons_append]
    exact readNumber.eq_2 _ _ fun _ h ↦ hsign (List.cons.inj h).1

/-! ## Whole numbers -/

/-- The digits of a number that is not zero begin with another digit. -/
theorem exists_toDigits {n : Nat} (hn : 0 < n) : ∃ c cs, Nat.toDigits 10 n = c :: cs ∧ c ≠ '0' := by
  induction n using Nat.strong_induction_on with
  | _ n ih =>
    rw [Nat.toDigits_eq_if (by decide)]
    split
    · next hlt =>
      have hne : ∀ d < 10, 0 < d → Nat.digitChar d ≠ '0' := by decide
      exact ⟨_, [], rfl, hne n hlt hn⟩
    · next hlt =>
      obtain ⟨c, cs, hdigits, hc⟩ := ih (n / 10) (by omega) (by omega)
      rw [hdigits]
      exact ⟨c, _, rfl, hc⟩

theorem isWhole_toDigits (n : Nat) : IsWhole (Nat.toDigits 10 n) := by
  rcases Nat.eq_zero_or_pos n with rfl | hn
  · exact .inl (Nat.toDigits_zero 10)
  · obtain ⟨c, cs, hdigits, hc⟩ := exists_toDigits hn
    exact .inr ⟨c, cs, hdigits, hc, hdigits ▸ areDigits_toDigits n⟩

/-- The numeral of a whole number. -/
def numeralOfInt (n : ℤ) : Numeral := ⟨decide (n < 0), Nat.toDigits 10 n.natAbs, [], none⟩

theorem text_numeralOfInt (n : ℤ) : (numeralOfInt n).text = (toString n).toList := by
  have hnat (m : Nat) : (toString m).toList = Nat.toDigits 10 m := by
    rw [Nat.toString_eq_ofList_toDigits, String.toList_ofList]
  cases n with
  | ofNat m =>
    show _ = (toString m).toList
    rw [hnat]
    exact List.append_nil _
  | negSucc m =>
    show _ = ("-" ++ toString (m + 1)).toList
    rw [String.toList_append, hnat]
    rw [numeralOfInt, Numeral.text, decide_eq_true (Int.negSucc_lt_zero m), if_pos rfl]
    exact congrArg _ (List.append_nil _)

theorem value_numeralOfInt (n : ℤ) : (numeralOfInt n).value = .int n := by
  rw [numeralOfInt, Numeral.value, if_pos ⟨rfl, rfl⟩, digitsValue_toDigits]
  congr 1
  split
  · next h => have := of_decide_eq_true h; omega
  · next h => have := of_decide_eq_false (Bool.eq_false_iff.mpr h); omega

theorem isWellFormed_numeralOfInt {n : ℤ} (h : decimalLength n.natAbs ≤ maxDigits) :
    (numeralOfInt n).IsWellFormed where
  whole := isWhole_toDigits _
  fraction := by intro c hc; cases hc
  exponent := by intro x hx; cases hx
  short _ _ := h

/-! ## Other numbers -/

/-- Digits that are not a zero, as they are written without the zeros at the end. -/
theorem exists_trimZeros {n : Nat} (hn : 0 < n) :
    ∃ c cs k, trimZeros (Nat.toDigits 10 n) = c :: cs ∧ c ≠ '0' ∧ AreDigits (c :: cs) ∧
      digitsValue (c :: cs) * 10 ^ k = n ∧ (c :: cs).length + k = (Nat.toDigits 10 n).length := by
  obtain ⟨k, hsplit⟩ : ∃ k, trimZeros (Nat.toDigits 10 n) ++ List.replicate k '0' =
      Nat.toDigits 10 n := by
    have hzeros : ∀ c ∈ (Nat.toDigits 10 n).reverse.takeWhile (· = '0'), c = '0' :=
      fun c hc ↦ of_decide_eq_true (List.all_eq_true.mp List.all_takeWhile c hc)
    refine ⟨((Nat.toDigits 10 n).reverse.takeWhile (· = '0')).length, ?_⟩
    rw [trimZeros, ← List.reverse_replicate, ← List.eq_replicate_of_mem hzeros,
      ← List.reverse_append, List.takeWhile_append_dropWhile, List.reverse_reverse]
  obtain ⟨c, cs, hdigits, hc⟩ := exists_toDigits hn
  have hall := areDigits_toDigits n
  have hvalue := digitsValue_toDigits n
  have hlength := congrArg List.length hsplit
  rw [← hsplit] at hall hvalue
  rw [digitsValue_append_zeros] at hvalue
  rw [List.length_append, List.length_replicate] at hlength
  generalize trimZeros (Nat.toDigits 10 n) = trimmed at *
  rw [hdigits] at hsplit
  cases trimmed with
  | nil => exact absurd (List.eq_of_mem_replicate (hsplit ▸ List.mem_cons_self ..)) hc
  | cons d ds =>
    refine ⟨d, ds, k, rfl, ?_, fun x hx ↦ hall x (List.mem_append_left _ hx), hvalue, hlength⟩
    rw [(List.cons.inj hsplit).1]
    exact hc

section

variable {c : Char} {cs : List Char} (hc : c ≠ '0') (hdigits : AreDigits (c :: cs))

include hc hdigits

/-- Digits with a point among them are a numeral of their value. -/
theorem exists_positional (point : ℤ) (negative : Bool) :
    ∃ n : Numeral, n.IsWellFormed ∧ n.negative = negative ∧ n.body = positional (c :: cs) point ∧
      n.value = .float (ofDecimal negative (digitsValue (c :: cs)) (point - (c :: cs).length)) := by
  rw [positional]
  split
  · next hpoint =>
    -- zeros between the point and the digits
    obtain ⟨k, rfl⟩ : ∃ k : ℕ, point = -k := ⟨(-point).toNat, by omega⟩
    rw [neg_neg, Int.toNat_natCast]
    refine ⟨⟨negative, ['0'], List.replicate k '0' ++ c :: cs, none⟩,
      ⟨.inl rfl, (areDigits_zeros k).append hdigits, (fun x hx ↦ nomatch hx), fun h ↦ ?_⟩,
      rfl, ?_, ?_⟩
    · simp at h
    · simp [Numeral.body, fractionText, exponentText]
    · have hvalue : digitsValue (['0'] ++ (List.replicate k '0' ++ c :: cs)) =
          digitsValue (c :: cs) := by
        rw [← List.append_assoc]
        exact digitsValue_zeros_append (k + 1) (c :: cs)
      rw [Numeral.value, if_neg (by simp), hvalue, List.length_append, List.length_replicate]
      congr 2
      show (0 : ℤ) - _ = _
      push_cast
      ring
  · next hpoint =>
    obtain ⟨k, rfl⟩ : ∃ k : ℕ, point = k := ⟨point.toNat, by omega⟩
    simp only [Int.toNat_natCast]
    split
    · next hle =>
      -- zeros between the digits and the point, and one after it
      refine ⟨⟨negative, c :: cs ++ List.replicate (k - (c :: cs).length) '0', ['0'], none⟩,
        ⟨.inr ⟨c, _, rfl, hc, hdigits.append (areDigits_zeros _)⟩, areDigits_zeros 1,
          (fun x hx ↦ nomatch hx), fun h ↦ nomatch h⟩, rfl, ?_, ?_⟩
      · simp [Numeral.body, fractionText, exponentText]
      · have hvalue : digitsValue (c :: cs ++ List.replicate (k - (c :: cs).length) '0' ++ ['0']) =
            digitsValue (c :: cs) * 10 ^ (k - (c :: cs).length + 1) := by
          rw [List.append_assoc, ← digitsValue_append_zeros, List.replicate_succ']
        rw [Numeral.value, if_neg (by simp), hvalue,
          ← Binary64.ofDecimal_shift negative _ (k - (c :: cs).length + 1) (k - (c :: cs).length)]
        congr 2
        show (0 : ℤ) - 1 = _
        omega
    · next hlt =>
      -- the point stands between two digits
      have hk : 0 < k := by omega
      have hne : (c :: cs).drop k ≠ [] := by
        rw [Ne, List.drop_eq_nil_iff]
        exact hlt
      refine ⟨⟨negative, (c :: cs).take k, (c :: cs).drop k, none⟩,
        ⟨.inr ⟨c, cs.take (k - 1), ?_, hc, fun x hx ↦ hdigits x ?_⟩,
          fun x hx ↦ hdigits x (List.mem_of_mem_drop hx),
          (fun x hx ↦ nomatch hx), fun h ↦ absurd h hne⟩, rfl, ?_, ?_⟩
      · rw [List.take_cons hk]
      · rw [← List.take_cons hk] at hx
        exact List.mem_of_mem_take hx
      · have hfraction : fractionText ((c :: cs).drop k) = '.' :: (c :: cs).drop k := by
          rw [fractionText, if_neg (mt List.isEmpty_iff.mp hne)]
        rw [Numeral.body, hfraction]
        exact congrArg _ (List.append_nil _)
      · rw [Numeral.value, if_neg fun h ↦ hne h.1, List.take_append_drop, List.length_drop]
        congr 2
        show (0 : ℤ) - _ = _
        omega

/-- Digits with an exponent are a numeral of their value. -/
theorem exists_scientific (point : ℤ) (negative : Bool) :
    ∃ n : Numeral, n.IsWellFormed ∧ n.negative = negative ∧
      n.body = scientific (c :: cs) (point - 1) ∧
      n.value = .float (ofDecimal negative (digitsValue (c :: cs)) (point - (c :: cs).length)) := by
  set exponent := point - 1 with hexponent
  obtain ⟨padded, hpadded, hne, hpaddedDigits, hpaddedValue⟩ : ∃ padded,
      padded = (if (Nat.toDigits 10 exponent.natAbs).length < 2
        then '0' :: Nat.toDigits 10 exponent.natAbs else Nat.toDigits 10 exponent.natAbs) ∧
      padded ≠ [] ∧ AreDigits padded ∧ digitsValue padded = exponent.natAbs := by
    refine ⟨_, rfl, ?_⟩
    split
    · refine ⟨List.cons_ne_nil _ _, (areDigits_zeros 1).append (areDigits_toDigits _), ?_⟩
      exact (digitsValue_zeros_append 1 _).trans (digitsValue_toDigits _)
    · exact ⟨Nat.toDigits_ne_nil, areDigits_toDigits _, digitsValue_toDigits _⟩
  refine ⟨⟨negative, [c], cs, some (decide (exponent < 0), padded)⟩,
    ⟨?_, fun x hx ↦ hdigits x (List.mem_cons_of_mem c hx), ?_, fun _ h ↦ nomatch h⟩, rfl, ?_, ?_⟩
  · exact .inr ⟨c, [], rfl, hc, List.forall_mem_singleton.mpr (hdigits c (List.mem_cons_self ..))⟩
  · rintro x ⟨⟩
    exact ⟨hne, hpaddedDigits⟩
  · cases cs <;> simp [scientific, hpadded, Numeral.body, fractionText, exponentText]
  · rw [Numeral.value, if_neg fun h ↦ nomatch h.2]
    have hpower : power (some (decide (exponent < 0), padded)) = exponent := by
      rw [power, hpaddedValue]
      split
      · next h => have := of_decide_eq_true h; omega
      · next h => have := of_decide_eq_false (Bool.eq_false_iff.mpr h); omega
    rw [hpower, hexponent, List.length_cons]
    congr 2
    push_cast
    ring

end

/-- A finite number is written as a numeral of its value. -/
theorem exists_numeral {negative : Bool} {m : Nat} {e : ℤ}
    (hcanonical : (Binary64.finite negative m e).IsCanonical) :
    ∃ n : Numeral, n.IsWellFormed ∧ n.text = printFloat (.finite negative m e) ∧
      n.value = .float (.finite negative m e) := by
  have htext (n : Numeral) (hnegative : n.negative = negative)
      (hbody : n.body = if m = 0 then ['0', '.', '0'] else Decimal.textOf m e) :
      n.text = printFloat (.finite negative m e) := by
    have hprint : printFloat (.finite negative m e) = (String.ofList
        (if negative then '-' :: n.body else n.body)).toList := by
      rw [hbody]
      unfold printFloat Binary64.text
      rfl
    rw [hprint, String.toList_ofList, Numeral.text, hnegative]
  rcases Nat.eq_zero_or_pos m with rfl | hpos
  · refine ⟨⟨negative, ['0'], ['0'], none⟩, ⟨.inl rfl, areDigits_zeros 1,
      (fun x hx ↦ nomatch hx), fun h ↦ nomatch h⟩, htext _ rfl (if_pos rfl).symm, ?_⟩
    have he : e = Binary64.minExponent := by
      by_contra hne
      have := hcanonical.2.2.2 (lt_of_le_of_ne hcanonical.2.1 (Ne.symm hne))
      exact absurd this (by decide)
    rw [he]
    rfl
  · have hdigits := Decimal.shortest_digits_pos hpos hcanonical
    have hreads := Decimal.ofDecimal_shortest hpos hcanonical negative
    obtain ⟨c, cs, k, htrim, hc, hall, hvalue, hlength⟩ := exists_trimZeros hdigits
    set point : ℤ := (Nat.toDigits 10 (Decimal.shortest m e).digits).length +
      (Decimal.shortest m e).exponent with hpoint
    have hdecimal : ofDecimal negative (digitsValue (c :: cs)) (point - (c :: cs).length) =
        .finite negative m e := by
      rw [← hreads, ← Binary64.ofDecimal_shift negative (digitsValue (c :: cs)) k, hvalue]
      congr 1
      omega
    have hbody : Decimal.textOf m e = if -4 < point && point ≤ 16 then positional (c :: cs) point
        else scientific (c :: cs) (point - 1) := by
      rw [← htrim]
      rfl
    split at hbody
    · obtain ⟨n, hn, hnegative, hnbody, hnvalue⟩ := exists_positional hc hall point negative
      refine ⟨n, hn, htext n hnegative ?_, hnvalue.trans (congrArg _ hdecimal)⟩
      rw [if_neg hpos.ne', hnbody, hbody]
    · obtain ⟨n, hn, hnegative, hnbody, hnvalue⟩ := exists_scientific hc hall point negative
      refine ⟨n, hn, htext n hnegative ?_, hnvalue.trans (congrArg _ hdecimal)⟩
      rw [if_neg hpos.ne', hnbody, hbody]

end Json
end NodeSchema
