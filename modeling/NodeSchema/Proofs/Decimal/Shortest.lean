import NodeSchema.Decimal.Shortest
import NodeSchema.Proofs.Decimal.Rounding

/-!
# Seventeen digits are enough

The search for the shortest decimal goes from one digit to seventeen and takes the first decimal
that reads back.  With seventeen digits there is one: the nearest decimal on the grid differs from
the number by less than a half, and at the beginning of a binade by less than a quarter, of a unit
of the last bit, because `2 ^ 53` is less than `10 ^ 16` (`exists_neighbour_reads`).  So the search
always ends with a decimal that reads back (`ofDecimal_shortest`).
-/

set_option autoImplicit false

namespace NodeSchema
namespace Decimal

open Binary64

/-- One of the neighbours on the decimal grid is at most half a step away. -/
theorem exists_neighbour_near {num den : Nat} (hden : 0 < den) (exponent : ℤ) :
    ∃ d ∈ neighbours num den exponent, |(d : ℚ) - num / den / 10 ^ exponent| ≤ 1 / 2 := by
  have hpos : 0 < (scaledBy 10 num den exponent).2 := scaledBy_pos (by decide) hden exponent
  have hnear := abs_roundDiv_sub_le (scaledBy 10 num den exponent).1 hpos
  rw [scaledBy_eq, Nat.cast_ofNat] at hnear
  have hmem (n d : Nat) : roundDiv n d ∈ if 2 * (n % d) < d then [n / d, n / d + 1]
      else if 2 * (n % d) > d then [n / d + 1, n / d]
      else if n / d % 2 = 0 then [n / d, n / d + 1] else [n / d + 1, n / d] := by
    rw [roundDiv]
    split
    · exact List.mem_cons_self ..
    · split
      · exact List.mem_cons_self ..
      · split <;> exact List.mem_cons_self ..
  exact ⟨_, hmem _ _, hnear⟩

/-- The digits in front of the point are counted on the scale of a power of ten. -/
theorem exists_scale : ∃ scale : ℕ, (scale : ℚ) = 10 ^ ((400 : ℕ) : ℤ) ∧
    ∀ num den, pointOf num den = decimalLength (num * scale / den) - 400 := by
  refine ⟨_, ?_, pointOf.eq_1⟩
  -- the exponent is generalised, or the power would be computed
  generalize 400 = k
  rw [Nat.pow_eq, zpow_natCast, Nat.cast_pow, Nat.cast_ofNat]

/-- A number is at least the power of ten that its grid tells. -/
theorem pow_gridOf_le {m : Nat} {e : ℤ} (hpos : 0 < m) (hleast : minExponent ≤ e) (count : Nat) :
    (10 : ℚ) ^ (gridOf m e count + count - 1) ≤ m * 2 ^ e := by
  have hone : (1 : ℚ) ≤ m := by exact_mod_cast hpos
  have hden : 0 < (ratio m e).2 := powerRatio_pos two_pos m e
  have hden' : (0 : ℚ) < (ratio m e).2 := by exact_mod_cast hden
  have hvalue : ((ratio m e).1 : ℚ) / (ratio m e).2 = m * 2 ^ e := powerRatio_eq 2 m e
  obtain ⟨scale, hcast, hpointOf⟩ := exists_scale
  rw [Nat.cast_ofNat] at hcast
  set digits := (ratio m e).1 * scale / (ratio m e).2 with hdigits
  -- the number is not below the grid on which its digits are counted
  have hdigits_pos : 0 < digits := by
    rw [hdigits, Nat.div_pos_iff]
    refine ⟨hden, ?_⟩
    have hle : (1 : ℚ) ≤ (ratio m e).1 / (ratio m e).2 * 10 ^ (400 : ℤ) := by
      rw [hvalue]
      calc (1 : ℚ) = 2 ^ (-1074 : ℤ) * 2 ^ (1074 : ℤ) := by
            rw [← zpow_add₀ two_ne_zero]; norm_num
        _ ≤ 2 ^ e * 10 ^ (400 : ℤ) := by
            refine mul_le_mul (zpow_le_zpow_right₀ one_le_two hleast) ?_ (by positivity)
              (by positivity)
            exact (zpow_le_zpow_right₀ one_le_two (by norm_num)).trans two_pow_lt_ten_pow.le
        _ ≤ m * 2 ^ e * 10 ^ (400 : ℤ) :=
            mul_le_mul_of_nonneg_right (le_mul_of_one_le_left (by positivity) hone) (by positivity)
    rw [div_mul_eq_mul_div, le_div_iff₀ hden', one_mul, ← hcast] at hle
    exact_mod_cast hle
  have hdigits_le : (digits : ℚ) ≤ m * 2 ^ e * 10 ^ (400 : ℤ) := by
    rw [← hvalue, div_mul_eq_mul_div, le_div_iff₀ hden', ← hcast]
    exact_mod_cast Nat.div_mul_le_self ((ratio m e).1 * scale) (ratio m e).2
  have hlength := decimalLength_pos digits
  have hpoint : gridOf m e count + count - 1 = ((decimalLength digits - 1 : ℕ) : ℤ) - 400 := by
    have hgrid : gridOf m e count = decimalLength digits - 400 - count := by
      rw [gridOf, hpointOf, hdigits]
    omega
  rw [hpoint, zpow_sub₀ (by norm_num), zpow_natCast, div_le_iff₀ (by positivity)]
  exact le_trans (by exact_mod_cast pow_decimalLength_le hdigits_pos) hdigits_le

/-- **With seventeen digits one of the neighbours reads back.** -/
theorem exists_neighbour_reads {m : Nat} {e : ℤ} (hpos : 0 < m)
    (hcanonical : (finite false m e).IsCanonical) :
    ∃ d ∈ neighbours (ratio m e).1 (ratio m e).2 (gridOf m e 17),
      ofDecimal false d (gridOf m e 17) = .finite false m e := by
  have hbelow := pow_gridOf_le hpos hcanonical.2.1 17
  have hvalue : ((ratio m e).1 : ℚ) / (ratio m e).2 = m * 2 ^ e := powerRatio_eq 2 m e
  have hden : 0 < (ratio m e).2 := powerRatio_pos two_pos m e
  generalize gridOf m e 17 = grid at *
  obtain ⟨d, hmem, hnear⟩ := exists_neighbour_near hden grid
  rw [hvalue] at hnear
  have hunit : (0 : ℚ) < 2 ^ e := by positivity
  have hstep : (0 : ℚ) < 10 ^ grid := by positivity
  have hgrid : (10 : ℚ) ^ 16 * 10 ^ grid ≤ m * 2 ^ e := by
    refine le_trans (le_of_eq ?_) hbelow
    rw [← zpow_natCast, ← zpow_add₀ (by norm_num)]
    congr 1
    norm_num
    ring
  have hdigits : 0 < d := by
    have hle : (10 : ℚ) ^ 16 ≤ m * 2 ^ e / 10 ^ grid := (le_div_iff₀ hstep).mpr hgrid
    have : (0 : ℚ) < d := by linarith [(abs_le.mp hnear).1]
    exact_mod_cast this
  -- half a step is this part of the number, in units of its last bit
  have hdistance : |(d * 10 ^ grid : ℚ) / 2 ^ e - m| ≤ m / (2 * 10 ^ 16) := by
    have hsplit : (d * 10 ^ grid : ℚ) / 2 ^ e - m =
        (d - m * 2 ^ e / 10 ^ grid) * (10 ^ grid / 2 ^ e) := by
      field_simp
    rw [hsplit, abs_mul, abs_of_pos (div_pos hstep hunit)]
    calc |(d : ℚ) - m * 2 ^ e / 10 ^ grid| * (10 ^ grid / 2 ^ e)
        ≤ 1 / 2 * (10 ^ grid / 2 ^ e) :=
          mul_le_mul_of_nonneg_right hnear (div_pos hstep hunit).le
      _ ≤ m / (2 * 10 ^ 16) := by
          rw [div_mul_div_comm, one_mul, div_le_div_iff₀ (by positivity) (by positivity)]
          nlinarith
  have hbound : (m : ℚ) < 2 ^ 53 := by exact_mod_cast hcanonical.1
  obtain ⟨hlower, hupper⟩ := abs_le.mp hdistance
  refine ⟨d, hmem, ofDecimal_eq_finite hdigits hpos hcanonical ?_ ?_ false⟩
  · refine lt_of_le_of_lt hdistance ?_
    rw [div_lt_iff₀ (by positivity)]
    linarith
  · intro hhalf
    have hm : (2 : ℚ) * m = 2 ^ 53 := by exact_mod_cast hhalf.symm
    have hpart : (m / (2 * 10 ^ 16) : ℚ) < 1 / 4 := by
      rw [div_lt_iff₀ (by positivity)]
      linarith
    linarith

/-- A decimal that is found with so many digits reads back. -/
theorem ofDecimal_withDigits? {m : Nat} {e : ℤ} {count : Nat} {d : Scaled}
    (h : withDigits? m e count = some d) :
    ofDecimal false d.digits d.exponent = .finite false m e := by
  rw [withDigits?] at h
  obtain ⟨digits, hfound, rfl⟩ := Option.map_eq_some_iff.mp h
  simpa using List.find?_some hfound

/-- A decimal is found if a neighbour reads back. -/
theorem withDigits?_ne_none {m d : Nat} {e : ℤ} {count : Nat}
    (hmem : d ∈ neighbours (ratio m e).1 (ratio m e).2 (gridOf m e count))
    (hreads : ofDecimal false d (gridOf m e count) = .finite false m e) :
    withDigits? m e count ≠ none := by
  intro hnone
  rw [withDigits?, Option.map_eq_none_iff, List.find?_eq_none] at hnone
  exact hnone d hmem (decide_eq_true hreads)

/-- The search ends with a decimal that reads back, with whatever number of digits it begins. -/
theorem ofDecimal_searchFrom {m : Nat} {e : ℤ} (hpos : 0 < m)
    (hcanonical : (finite false m e).IsCanonical) (fuel : Nat) :
    ofDecimal false (searchFrom m e (fuel + 1)).digits (searchFrom m e (fuel + 1)).exponent =
      .finite false m e := by
  induction fuel with
  | zero =>
    obtain ⟨d, hmem, hreads⟩ := exists_neighbour_reads hpos hcanonical
    obtain ⟨found, hfound⟩ := Option.ne_none_iff_exists'.mp (withDigits?_ne_none hmem hreads)
    rw [searchFrom, Nat.sub_zero, hfound, Option.getD_some]
    exact ofDecimal_withDigits? hfound
  | succ fuel ih =>
    rw [searchFrom]
    cases hfound : withDigits? m e (17 - (fuel + 1)) with
    | some d =>
      rw [Option.getD_some]
      exact ofDecimal_withDigits? hfound
    | none =>
      rw [Option.getD_none]
      exact ih

/-- The sign of a quotient goes to the number. -/
theorem ofRatio_of_ofRatio_false {num den m : Nat} {e : ℤ} (hden : 0 < den)
    (h : ofRatio false num den = .finite false m e) (negative : Bool) :
    ofRatio negative num den = .finite negative m e := by
  rcases Nat.eq_zero_or_pos num with rfl | hnum
  · rw [ofRatio, if_pos rfl] at h ⊢
    obtain ⟨-, rfl, rfl⟩ := Binary64.finite.inj h
    rfl
  · have hexponent := isExponent_exponentOf hnum hden
    rw [ofRatio_eq hnum hden hexponent] at h ⊢
    dsimp only at h ⊢
    split_ifs at h ⊢
    all_goals
      obtain ⟨-, hm, he⟩ := Binary64.finite.inj h
      rw [hm, he]

/-- The sign of a decimal goes to the number. -/
theorem ofDecimal_of_ofDecimal_false {digits m : Nat} {exponent e : ℤ} (hdigits : 0 < digits)
    (h : ofDecimal false digits exponent = .finite false m e) (negative : Bool) :
    ofDecimal negative digits exponent = .finite negative m e := by
  rw [ofDecimal_eq hdigits] at h ⊢
  split_ifs at h ⊢
  · obtain ⟨-, rfl, rfl⟩ := Binary64.finite.inj h
    rfl
  · exact ofRatio_of_ofRatio_false (powerRatio_pos (by decide) _ _) h negative

/-- The shortest decimal is not zero. -/
theorem shortest_digits_pos {m : Nat} {e : ℤ} (hpos : 0 < m)
    (hcanonical : (finite false m e).IsCanonical) : 0 < (shortest m e).digits := by
  have hreads := ofDecimal_searchFrom hpos hcanonical 16
  rw [Nat.pos_iff_ne_zero]
  intro hzero
  rw [shortest] at hzero
  rw [hzero, ofDecimal, if_pos rfl] at hreads
  exact absurd (Binary64.finite.inj hreads).2.1 hpos.ne

/-- **The shortest decimal reads back**, with either sign. -/
theorem ofDecimal_shortest {m : Nat} {e : ℤ} (hpos : 0 < m)
    (hcanonical : (finite false m e).IsCanonical) (negative : Bool) :
    ofDecimal negative (shortest m e).digits (shortest m e).exponent = .finite negative m e :=
  ofDecimal_of_ofDecimal_false (shortest_digits_pos hpos hcanonical)
    (ofDecimal_searchFrom hpos hcanonical 16) negative

end Decimal
end NodeSchema
