import NodeSchema.Json.Printer
import NodeSchema.Proofs.Json.Number

/-!
# Printed values hold no carriage returns

A carriage return in a string is written as an escape, and no other part of a value has one
(`notMem_print`).  So a printed value is the same whatever line ends it is read with.
-/

set_option autoImplicit false

namespace NodeSchema
namespace Json

/-! ## Strings -/

theorem notMem_hexDigits {c : Char} (hc : ∀ n, n < 16 → Text.hexDigit n ≠ c) (count n : Nat) :
    c ∉ Text.hexDigits count n := by
  induction count generalizing n with
  | zero => exact List.not_mem_nil
  | succ count ih =>
    rw [Text.hexDigits]
    refine List.not_mem_append (ih (n / 16)) fun h ↦ ?_
    exact hc (n % 16) (Nat.mod_lt n (by decide)) (List.mem_singleton.mp h).symm

theorem notMem_unitEscape (n : Nat) : '\r' ∉ unitEscape n :=
  List.not_mem_cons_of_ne_of_not_mem (by decide)
    (List.not_mem_cons_of_ne_of_not_mem (by decide) (notMem_hexDigits (by decide) 4 n))

theorem notMem_escapeChar (c : Char) : '\r' ∉ escapeChar c := by
  rw [escapeChar]
  by_cases hreturn : c = '\r'
  · subst hreturn
    decide
  · have hself : '\r' ∉ [c] := fun h ↦ hreturn (List.mem_singleton.mp h).symm
    have hpair := List.not_mem_append (notMem_unitEscape (0xD800 + (c.toNat - 0x10000) / 1024))
      (notMem_unitEscape (0xDC00 + (c.toNat - 0x10000) % 1024))
    have hunit := notMem_unitEscape c.toNat
    repeat' split
    all_goals first | decide | assumption

theorem notMem_printString (s : String) : '\r' ∉ printString s := by
  rw [printString, List.mem_append, List.mem_cons, List.mem_flatMap]
  rintro ((h | ⟨c, -, hc⟩) | h)
  · exact absurd h (by decide)
  · exact notMem_escapeChar c hc
  · exact absurd h (by decide)

/-! ## Numbers -/

theorem AreDigits.notMem {ds : List Char} (h : AreDigits ds) : '\r' ∉ ds :=
  fun hmem ↦ absurd (h '\r' hmem) (by decide)

theorem notMem_positional {ds : List Char} (hds : AreDigits ds) (point : ℤ) :
    '\r' ∉ Decimal.positional ds point := by
  have hzeros (k : Nat) : '\r' ∉ List.replicate k '0' := (areDigits_zeros k).notMem
  rw [Decimal.positional]
  split
  · simp [hzeros, hds.notMem]
  · dsimp only
    split
    · simp [hzeros, hds.notMem]
    · have htake : '\r' ∉ ds.take point.toNat := fun h ↦ hds.notMem (List.mem_of_mem_take h)
      have hdrop : '\r' ∉ ds.drop point.toNat := fun h ↦ hds.notMem (List.mem_of_mem_drop h)
      simp [htake, hdrop]

theorem notMem_scientific {ds : List Char} (hds : AreDigits ds) (exponent : ℤ) :
    '\r' ∉ Decimal.scientific ds exponent := by
  have hsize : '\r' ∉ Nat.toDigits 10 exponent.natAbs := (areDigits_toDigits _).notMem
  have hds := hds.notMem
  rw [Decimal.scientific.eq_def]
  dsimp only
  refine List.not_mem_append ?_ (List.not_mem_cons_of_ne_of_not_mem (by decide) ?_)
  · split
    · exact hds
    · simpa using hds
    · exact List.not_mem_nil
  · refine List.not_mem_cons_of_ne_of_not_mem (by split <;> decide) ?_
    split
    · exact List.not_mem_cons_of_ne_of_not_mem (by decide) hsize
    · exact hsize

theorem notMem_textOf (significand : Nat) (exponent : ℤ) :
    '\r' ∉ Decimal.textOf significand exponent := by
  have hdigits (ds : List Char) (hds : AreDigits ds) : AreDigits (Decimal.trimZeros ds) := by
    intro c hc
    rw [Decimal.trimZeros, List.mem_reverse] at hc
    exact hds c (List.mem_reverse.mp ((List.dropWhile_sublist _).subset hc))
  rw [Decimal.textOf]
  split
  · exact notMem_positional (hdigits _ (areDigits_toDigits _)) _
  · exact notMem_scientific (hdigits _ (areDigits_toDigits _)) _

theorem notMem_printFloat (x : Binary64) : '\r' ∉ printFloat x := by
  cases x with
  | nan => decide
  | infinity negative => cases negative <;> decide
  | finite negative significand exponent =>
    have hbody : '\r' ∉ if significand = 0 then ['0', '.', '0']
        else Decimal.textOf significand exponent := by
      split
      · decide
      · exact notMem_textOf significand exponent
    show '\r' ∉ (Binary64.text (.finite negative significand exponent)).toList
    rw [Binary64.text, String.toList_ofList]
    split
    · exact List.not_mem_cons_of_ne_of_not_mem (by decide) hbody
    · exact hbody

theorem notMem_int (n : ℤ) : '\r' ∉ (toString n).toList := by
  have hdigits : '\r' ∉ (numeralOfInt n).body := by
    have hwhole := (areDigits_toDigits n.natAbs).notMem
    simp [Numeral.body, numeralOfInt, Numeral.fractionText, Numeral.exponentText, hwhole]
  rw [← text_numeralOfInt, Numeral.text]
  split
  · exact List.not_mem_cons_of_ne_of_not_mem (by decide) hdigits
  · exact hdigits

/-! ## Values -/

theorem notMem_newline (level : Nat) : '\r' ∉ newline level :=
  List.not_mem_cons_of_ne_of_not_mem (by decide) fun h ↦
    absurd (List.eq_of_mem_replicate h) (by decide)

mutual
theorem notMem_printAt (level : Nat) : ∀ v : Json, '\r' ∉ v.printAt level
  | .null | .bool true | .bool false | .array [] | .object [] => by simp [printAt]
  | .int n => notMem_int n
  | .float x => notMem_printFloat x
  | .string s => notMem_printString s
  | .array (v :: vs) => by
    simp [printAt, notMem_newline, notMem_printAt (level + 1) v, notMem_printItems (level + 1) vs]
  | .object ((n, v) :: ms) => by
    simp [printAt, notMem_newline, notMem_printString, notMem_printAt (level + 1) v,
      notMem_printMembers (level + 1) ms]
theorem notMem_printItems (level : Nat) : ∀ vs : List Json, '\r' ∉ printItems level vs
  | [] => by simp [printItems]
  | v :: vs => by
    simp [printItems, notMem_newline, notMem_printAt level v, notMem_printItems level vs]
theorem notMem_printMembers (level : Nat) :
    ∀ ms : List (String × Json), '\r' ∉ printMembers level ms
  | [] => by simp [printMembers]
  | (n, v) :: ms => by
    simp [printMembers, notMem_newline, notMem_printString, notMem_printAt level v,
      notMem_printMembers level ms]
end

/-- **No carriage return is printed.** -/
theorem notMem_print (v : Json) : '\r' ∉ v.print := notMem_printAt 0 v

end Json
end NodeSchema
