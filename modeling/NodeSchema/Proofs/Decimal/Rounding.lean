import Mathlib.Algebra.Order.Field.Power
import Mathlib.Data.Nat.Digits.Defs
import Mathlib.Data.Rat.Cast.Order
import Mathlib.Tactic.FieldSimp
import Mathlib.Tactic.Linarith
import Mathlib.Tactic.Positivity
import Mathlib.Tactic.Ring
import NodeSchema.Decimal.Binary64

/-!
# What rounding gives

The number nearest to a quotient is found in two steps: the exponent of its binade, then the
significand, rounded to a whole number.

* **The exponent.**  `IsExponent x e` says that `e` is the exponent with which numbers near `x` are
  written; there is only one (`IsExponent.unique`), and `exponentOf` finds it
  (`isExponent_exponentOf`).  Its first guess is off by one at most, because it knows the number of
  bits of both parts of the quotient.
* **The number.**  `ofRatio_eq_finite` says how near a quotient must be to a number to be rounded
  to it: by less than half a unit of its last bit, and by less than a quarter from below where the
  binade changes, since the numbers lie closer together there.
* **Decimals.**  `ofDecimal_eq_finite` is the same for decimals, and `ofDecimal_shift` says that
  zeros may be moved between the digits and the exponent.

Rounding gives canonical numbers only (`IsCanonical`).
-/

set_option autoImplicit false

namespace NodeSchema
namespace Binary64

/-! ## Canonical numbers -/

/-- The significand and the exponent are in their bounds, and the significand has all its bits
unless the exponent is the least one. -/
def IsCanonical : Binary64 → Prop
  | .finite _ m e => m < significandBound ∧ minExponent ≤ e ∧ e ≤ maxExponent ∧
    (minExponent < e → significandBound ≤ 2 * m)
  | _ => True

/-! ## The exponent of a quotient -/

/-- A positive quotient is less than the first number that needs a greater exponent, and is not
less than the first that needs this one, unless it is the least exponent. -/
structure IsExponent (x : ℚ) (e : ℤ) : Prop where
  least : minExponent ≤ e
  reached : minExponent < e → (2 : ℚ) ^ (e + 52) ≤ x
  below : x < (2 : ℚ) ^ (e + 53)

theorem IsExponent.le {x : ℚ} {e f : ℤ} (he : IsExponent x e) (hf : IsExponent x f) : e ≤ f := by
  by_contra hlt
  have hreached := he.reached (lt_of_le_of_lt hf.least (not_le.mp hlt))
  have hpow : (2 : ℚ) ^ (e + 52) < 2 ^ (f + 53) := lt_of_le_of_lt hreached hf.below
  have := (zpow_lt_zpow_iff_right₀ (by norm_num : (1 : ℚ) < 2)).mp hpow
  omega

/-- A quotient has one exponent only. -/
theorem IsExponent.unique {x : ℚ} {e f : ℤ} (he : IsExponent x e) (hf : IsExponent x f) : e = f :=
  le_antisymm (he.le hf) (hf.le he)

/-- The numbers of bits of the two parts of a quotient bound it. -/
theorem log2_bounds {num den : Nat} (hnum : 0 < num) (hden : 0 < den) :
    (2 : ℚ) ^ ((num.log2 : ℤ) - den.log2 - 1) < num / den ∧
      (num / den : ℚ) < 2 ^ ((num.log2 : ℤ) - den.log2 + 1) := by
  have hden' : (0 : ℚ) < den := by exact_mod_cast hden
  have hlower : (2 : ℚ) ^ (num.log2 : ℤ) ≤ num := by
    exact_mod_cast Nat.log2_self_le hnum.ne'
  have hupper : (num : ℚ) < 2 ^ ((num.log2 : ℤ) + 1) := by
    exact_mod_cast Nat.lt_log2_self (n := num)
  have hlower' : (2 : ℚ) ^ (den.log2 : ℤ) ≤ den := by
    exact_mod_cast Nat.log2_self_le hden.ne'
  have hupper' : (den : ℚ) < 2 ^ ((den.log2 : ℤ) + 1) := by
    exact_mod_cast Nat.lt_log2_self (n := den)
  constructor
  · rw [lt_div_iff₀ hden']
    calc (2 : ℚ) ^ ((num.log2 : ℤ) - den.log2 - 1) * den
        < 2 ^ ((num.log2 : ℤ) - den.log2 - 1) * 2 ^ ((den.log2 : ℤ) + 1) :=
          mul_lt_mul_of_pos_left hupper' (by positivity)
      _ = 2 ^ (num.log2 : ℤ) := by rw [← zpow_add₀ two_ne_zero]; congr 1; omega
      _ ≤ num := hlower
  · rw [div_lt_iff₀ hden']
    calc (num : ℚ) < 2 ^ ((num.log2 : ℤ) + 1) := hupper
      _ = 2 ^ ((num.log2 : ℤ) - den.log2 + 1) * 2 ^ (den.log2 : ℤ) := by
          rw [← zpow_add₀ two_ne_zero]; congr 1; omega
      _ ≤ 2 ^ ((num.log2 : ℤ) - den.log2 + 1) * den :=
          mul_le_mul_of_nonneg_left hlower' (by positivity)

/-- A quotient divided by a power of a base, as a quotient. -/
def scaledBy (base num den : Nat) (e : ℤ) : Nat × Nat :=
  if e < 0 then (num * Nat.pow base (-e).toNat, den) else (num, den * Nat.pow base e.toNat)

theorem scaledBy_pos {base num den : Nat} (hbase : 0 < base) (hden : 0 < den) (e : ℤ) :
    0 < (scaledBy base num den e).2 := by
  rw [scaledBy]
  split
  · exact hden
  · exact Nat.mul_pos hden (Nat.pow_pos hbase)

theorem scaledBy_eq (base num den : Nat) (e : ℤ) :
    ((scaledBy base num den e).1 : ℚ) / (scaledBy base num den e).2 = num / den / base ^ e := by
  rw [scaledBy]
  split
  · next h =>
    obtain ⟨k, rfl⟩ : ∃ k : ℕ, e = -k := ⟨(-e).toNat, by omega⟩
    rw [Nat.pow_eq, neg_neg, Int.toNat_natCast, zpow_neg, zpow_natCast]
    push_cast
    rw [div_inv_eq_mul]
    ring
  · next h =>
    obtain ⟨k, rfl⟩ : ∃ k : ℕ, e = k := ⟨e.toNat, by omega⟩
    rw [Nat.pow_eq, Int.toNat_natCast, zpow_natCast]
    push_cast
    rw [div_div]

theorem scaled_pos {num den : Nat} (hden : 0 < den) (e : ℤ) : 0 < (scaled num den e).2 :=
  scaledBy_pos two_pos hden e

/-- Scaling a quotient divides it by a power of two. -/
theorem scaled_eq (num den : Nat) (e : ℤ) :
    ((scaled num den e).1 : ℚ) / (scaled num den e).2 = num / den / 2 ^ e :=
  scaledBy_eq 2 num den e

/-- A scaled quotient is at least a whole number iff the quotient is at least its multiple. -/
theorem le_scaled_iff {num den : Nat} (hden : 0 < den) (e : ℤ) (k : Nat) :
    k ≤ (scaled num den e).1 / (scaled num den e).2 ↔ (k : ℚ) * 2 ^ e ≤ num / den := by
  have hpos : (0 : ℚ) < (scaled num den e).2 := by exact_mod_cast scaled_pos hden e
  rw [Nat.le_div_iff_mul_le (scaled_pos hden e), ← Nat.cast_le (α := ℚ), Nat.cast_mul,
    ← le_div_iff₀ hpos, scaled_eq, le_div_iff₀ (by positivity)]

/-- **The exponent that is found is the exponent of the quotient.** -/
theorem isExponent_exponentOf {num den : Nat} (hnum : 0 < num) (hden : 0 < den) :
    IsExponent (num / den) (exponentOf num den) := by
  obtain ⟨hlower, hupper⟩ := log2_bounds hnum hden
  set guess : ℤ := max ((num.log2 : ℤ) - den.log2 - 53) minExponent with hguess
  have hbelow : (num / den : ℚ) < 2 ^ (guess + 54) :=
    hupper.trans_le (zpow_le_zpow_right₀ one_le_two (by omega))
  have hdef : exponentOf num den =
      if (2 : ℚ) ^ (guess + 53) ≤ num / den then guess + 1 else guess := by
    have hbound : ((significandBound : ℕ) : ℚ) * 2 ^ guess = 2 ^ (guess + 53) := by
      rw [zpow_add₀ two_ne_zero, mul_comm, significandBound, Nat.pow_eq]
      norm_num
    rw [← hbound]
    simp only [exponentOf, ← hguess, le_scaled_iff hden]
  rw [hdef]
  split
  · next hle => exact ⟨by omega, fun _ ↦ by rwa [add_assoc], by rwa [add_assoc]⟩
  · next hlt =>
    refine ⟨by omega, fun hleast ↦ ?_, not_le.mp hlt⟩
    have hguess' : guess = (num.log2 : ℤ) - den.log2 - 53 := by omega
    rw [show guess + 52 = (num.log2 : ℤ) - den.log2 - 1 by omega]
    exact hlower.le

/-! ## Rounding to a whole number -/

/-- A quotient that is nearest to a whole number is rounded to it. -/
theorem roundDiv_eq {num den m : Nat} (hden : 0 < den) (h : |(num / den : ℚ) - m| < 1 / 2) :
    roundDiv num den = m := by
  have hden' : (0 : ℚ) < den := by exact_mod_cast hden
  have hsplit : (num : ℚ) = den * (num / den : ℕ) + (num % den : ℕ) := by
    exact_mod_cast (Nat.div_add_mod num den).symm
  rw [abs_lt, lt_sub_iff_add_lt, sub_lt_iff_lt_add, lt_div_iff₀ hden', div_lt_iff₀ hden'] at h
  have hlower : (2 * m : ℚ) * den < 2 * num + den := by linarith [h.1]
  have hupper : (2 * num : ℚ) < (2 * m + 1) * den := by linarith [h.2]
  have hlower' : 2 * m * den < 2 * num + den := by exact_mod_cast hlower
  have hupper' : 2 * num < (2 * m + 1) * den := by exact_mod_cast hupper
  have hmod := Nat.mod_lt num hden
  have hdiv := Nat.div_add_mod num den
  rw [roundDiv]
  generalize num / den = q at *
  generalize num % den = r at *
  subst hdiv
  -- the quotient is the whole number itself, or the one before it
  have hle : q ≤ m := by
    by_contra hlt
    have : (m + 1) * den ≤ q * den := Nat.mul_le_mul_right _ (by omega)
    nlinarith
  have hge : m ≤ q + 1 := by
    by_contra hlt
    have : (q + 2) * den ≤ m * den := Nat.mul_le_mul_right _ (by omega)
    nlinarith
  obtain rfl | rfl : m = q ∨ m = q + 1 := by omega
  · rw [if_pos (by nlinarith)]
  · rw [if_neg (by nlinarith), if_pos (by nlinarith)]

/-- Rounding changes a quotient by half at most. -/
theorem abs_roundDiv_sub_le (num : Nat) {den : Nat} (hden : 0 < den) :
    |(roundDiv num den : ℚ) - num / den| ≤ 1 / 2 := by
  have hden' : (0 : ℚ) < den := by exact_mod_cast hden
  have hmod := Nat.mod_lt num hden
  have hsplit : (num : ℚ) = den * (num / den : ℕ) + (num % den : ℕ) := by
    exact_mod_cast (Nat.div_add_mod num den).symm
  rw [roundDiv]
  generalize num / den = q at *
  generalize num % den = r at *
  rw [hsplit, add_div, mul_div_cancel_left₀ _ hden'.ne', abs_le]
  have hlow (h : 2 * r ≤ den) : (r / den : ℚ) ≤ 1 / 2 := by
    rw [div_le_div_iff₀ hden' two_pos]
    exact_mod_cast (by omega : r * 2 ≤ 1 * den)
  have hhigh (h : den ≤ 2 * r) : 1 / 2 ≤ (r / den : ℚ) := by
    rw [div_le_div_iff₀ two_pos hden']
    exact_mod_cast (by omega : 1 * den ≤ r * 2)
  have hone : (r / den : ℚ) ≤ 1 := (div_le_one hden').mpr (by exact_mod_cast hmod.le)
  have hzero : 0 ≤ (r / den : ℚ) := by positivity
  split
  · next h => have := hlow h.le; constructor <;> linarith
  · split
    · next h => have := hhigh h.le; constructor <;> push_cast <;> linarith
    · have h1 := hlow (by omega)
      have h2 := hhigh (by omega)
      split <;> constructor <;> push_cast <;> linarith

theorem roundDiv_mul {k : Nat} (hk : 0 < k) (num den : Nat) :
    roundDiv (k * num) (k * den) = roundDiv num den := by
  have hlt (a b : Nat) : k * a < k * b ↔ a < b := Nat.mul_lt_mul_left hk
  simp only [roundDiv, Nat.mul_div_mul_left _ _ hk, Nat.mul_mod_mul_left, gt_iff_lt,
    Nat.mul_left_comm 2 k, hlt]

/-! ## Rounding to a number -/

/-- The number nearest to a quotient, told by its exponent. -/
theorem ofRatio_eq {num den : Nat} (hnum : 0 < num) (hden : 0 < den) {e : ℤ}
    (he : IsExponent (num / den) e) (negative : Bool) :
    ofRatio negative num den =
      let m := roundDiv (scaled num den e).1 (scaled num den e).2
      if m = significandBound then
        if maxExponent < e + 1 then .infinity negative else .finite negative (m / 2) (e + 1)
      else if maxExponent < e then .infinity negative else .finite negative m e := by
  rw [ofRatio, if_neg hnum.ne', (isExponent_exponentOf hnum hden).unique he]
  dsimp only
  by_cases hbound : roundDiv (scaled num den e).1 (scaled num den e).2 = significandBound
  · simp only [if_pos hbound]
  · simp only [if_neg hbound]

/-- The significand is rounded to the nearest whole number. -/
theorem abs_significand_sub_le (num : Nat) {den : Nat} (hden : 0 < den) (e : ℤ) :
    |(roundDiv (scaled num den e).1 (scaled num den e).2 : ℚ) - num / den / 2 ^ e| ≤ 1 / 2 := by
  rw [← scaled_eq]
  exact abs_roundDiv_sub_le _ (scaled_pos hden e)

/-- The bounds of a quotient in units of the last bit. -/
theorem IsExponent.unit_bounds {x : ℚ} {e : ℤ} (h : IsExponent x e) :
    (minExponent < e → 2 ^ 52 ≤ x / 2 ^ e) ∧ x / 2 ^ e < 2 ^ 53 := by
  have hpow (k : ℕ) : (2 : ℚ) ^ (e + k) = 2 ^ k * 2 ^ e := by
    rw [zpow_add₀ two_ne_zero, zpow_natCast, mul_comm]
  refine ⟨fun hleast ↦ ?_, ?_⟩
  · rw [le_div_iff₀ (by positivity)]
    exact (hpow 52) ▸ h.reached hleast
  · rw [div_lt_iff₀ (by positivity)]
    exact (hpow 53) ▸ h.below

theorem significandBound_eq : significandBound = 2 ^ 53 := rfl

/-- **Rounding gives canonical numbers.** -/
theorem isCanonical_ofRatio (negative : Bool) (num : Nat) {den : Nat} (hden : 0 < den) :
    (ofRatio negative num den).IsCanonical := by
  rcases Nat.eq_zero_or_pos num with rfl | hnum
  · exact ⟨by decide, le_rfl, by decide, fun h ↦ absurd h (lt_irrefl _)⟩
  have he := isExponent_exponentOf hnum hden
  rw [ofRatio_eq hnum hden he]
  obtain ⟨hreached, hbelow⟩ := he.unit_bounds
  have hround := abs_le.mp (abs_significand_sub_le num hden (exponentOf num den))
  have hleast := he.least
  generalize exponentOf num den = e at *
  generalize roundDiv _ _ = m at *
  have hm : m ≤ significandBound := by
    have hlt : (m : ℚ) < 2 ^ 53 + 1 := by linarith [hround.2]
    exact Nat.lt_succ_iff.mp (by exact_mod_cast hlt)
  have hm' (h : minExponent < e) : significandBound ≤ 2 * m := by
    have hlt : (2 ^ 52 : ℚ) < m + 1 := by linarith [hround.1, hreached h]
    have : 2 ^ 52 < m + 1 := by exact_mod_cast hlt
    rw [significandBound_eq]
    omega
  dsimp only
  split
  · next hbound =>
    split
    · trivial
    · next hmax =>
      rw [hbound]
      exact ⟨by decide, by omega, not_lt.mp hmax, fun _ ↦ by decide⟩
  · next hbound =>
    split
    · trivial
    · next hmax => exact ⟨by omega, hleast, not_lt.mp hmax, hm'⟩

/-- **A quotient is rounded to the number that it is near to**: by less than half a unit of the
last bit, and from below by less than a quarter if the binade begins with the number. -/
theorem ofRatio_eq_finite {num den m : Nat} {e : ℤ} (hden : 0 < den) (hpos : 0 < m)
    (hcanonical : (finite false m e).IsCanonical)
    (hnear : |(num / den : ℚ) / 2 ^ e - m| < 1 / 2)
    (hbinade : significandBound = 2 * m → (m : ℚ) - num / den / 2 ^ e < 1 / 4)
    (negative : Bool) : ofRatio negative num den = .finite negative m e := by
  obtain ⟨hbound, hleast, hmax, hbits⟩ := hcanonical
  have hden' : (0 : ℚ) < den := by exact_mod_cast hden
  have hunit : (0 : ℚ) < 2 ^ e := by positivity
  obtain ⟨hlower, hupper⟩ := abs_lt.mp hnear
  have hone : (1 : ℚ) ≤ m := by exact_mod_cast hpos
  have hnum : 0 < num := by
    rcases Nat.eq_zero_or_pos num with rfl | h
    · simp only [Nat.cast_zero, zero_div] at hlower
      linarith
    · exact h
  have hbelow : (num / den : ℚ) < 2 ^ (e + 53) := by
    rw [zpow_add₀ two_ne_zero, mul_comm, ← div_lt_iff₀ hunit]
    have : (m : ℚ) + 1 ≤ 2 ^ 53 := by exact_mod_cast Nat.succ_le_of_lt hbound
    norm_num at this ⊢
    linarith
  by_cases hreached : minExponent < e → (2 : ℚ) ^ (e + 52) ≤ num / den
  · -- the quotient has the exponent of the number
    have hround : roundDiv (scaled num den e).1 (scaled num den e).2 = m := by
      refine roundDiv_eq (scaled_pos hden e) ?_
      rwa [scaled_eq]
    rw [ofRatio_eq hnum hden ⟨hleast, hreached, hbelow⟩]
    simp only [hround, if_neg hbound.ne, if_neg hmax.not_gt]
  · -- the number begins a binade, and the quotient is rounded up to it from the one before
    obtain ⟨hnormal, hlt⟩ := Classical.not_imp.mp hreached
    rw [not_le, zpow_add₀ two_ne_zero, mul_comm, ← div_lt_iff₀ hunit] at hlt
    have hhalf : significandBound = 2 * m := by
      have hm : (m : ℚ) < 2 ^ 52 + 1 := by norm_num1 at hlt ⊢; linarith
      have : m < 2 ^ 52 + 1 := by exact_mod_cast hm
      have := hbits hnormal
      rw [significandBound_eq] at *
      omega
    have hm : m = 2 ^ 52 := by rw [significandBound_eq] at hhalf; omega
    have hhalf' : (num / den : ℚ) / 2 ^ (e - 1) = 2 * (num / den / 2 ^ e) := by
      rw [zpow_sub_one₀ two_ne_zero, div_mul_eq_div_div, div_inv_eq_mul, mul_comm]
    have hnear' := hbinade hhalf
    have hexponent : IsExponent (num / den) (e - 1) := by
      refine ⟨by omega, fun _ ↦ ?_, ?_⟩
      · rw [zpow_add₀ two_ne_zero, mul_comm, ← le_div_iff₀ (by positivity), hhalf']
        rw [hm] at hnear'
        norm_num at hnear' ⊢
        linarith
      · rw [zpow_add₀ two_ne_zero, mul_comm, ← div_lt_iff₀ (by positivity), hhalf']
        norm_num at hlt ⊢
        linarith
    have hround : roundDiv (scaled num den (e - 1)).1 (scaled num den (e - 1)).2 =
        significandBound := by
      refine roundDiv_eq (scaled_pos hden _) ?_
      rw [scaled_eq, hhalf', hhalf, abs_lt]
      push_cast
      rw [hm] at hnear' ⊢
      norm_num at hlt hnear' ⊢
      constructor <;> linarith
    rw [ofRatio_eq hnum hden hexponent]
    simp only [hround, if_true, sub_add_cancel, if_neg hmax.not_gt]
    congr 1
    omega

/-- Only the value of a quotient counts. -/
theorem ofRatio_mul {k : Nat} (hk : 0 < k) (num : Nat) {den : Nat} (hden : 0 < den)
    (negative : Bool) : ofRatio negative (k * num) (k * den) = ofRatio negative num den := by
  rcases Nat.eq_zero_or_pos num with rfl | hnum
  · rw [ofRatio, ofRatio, if_pos rfl, if_pos (Nat.mul_zero k)]
  have hvalue : ((k * num : ℕ) : ℚ) / (k * den : ℕ) = num / den := by
    push_cast
    exact mul_div_mul_left _ _ (by exact_mod_cast hk.ne')
  have he := isExponent_exponentOf hnum hden
  have hscaled (e : ℤ) : scaled (k * num) (k * den) e =
      (k * (scaled num den e).1, k * (scaled num den e).2) := by
    rw [scaled, scaled]
    split <;> simp only [Nat.mul_assoc]
  rw [ofRatio_eq hnum hden he, ofRatio_eq (Nat.mul_pos hk hnum) (Nat.mul_pos hk hden)
    (hvalue.symm ▸ he)]
  simp only [hscaled, roundDiv_mul hk]

/-! ## Decimals -/

theorem decimalLength_pos (n : Nat) : 0 < decimalLength n := Nat.length_toDigits_pos

theorem lt_pow_decimalLength (n : Nat) : n < 10 ^ decimalLength n :=
  (Nat.length_toDigits_le_iff (by decide) (decimalLength_pos n)).mp le_rfl

theorem pow_decimalLength_le {n : Nat} (hn : 0 < n) : 10 ^ (decimalLength n - 1) ≤ n := by
  by_contra hlt
  rcases Nat.eq_zero_or_pos (decimalLength n - 1) with hzero | hpos
  · rw [hzero] at hlt
    omega
  · have := (Nat.length_toDigits_le_iff (by decide) hpos).mpr (not_le.mp hlt)
    have hlength := decimalLength_pos n
    rw [decimalLength] at this hlength
    omega

/-- The number of digits is the one between whose powers of ten the number lies. -/
theorem decimalLength_eq {n k : Nat} (hlower : 10 ^ k ≤ n) (hupper : n < 10 ^ (k + 1)) :
    decimalLength n = k + 1 := by
  have hn : 0 < n := lt_of_lt_of_le (Nat.pow_pos (by decide)) hlower
  have h1 := (Nat.pow_lt_pow_iff_right (by decide : 1 < 10)).mp
    (lt_of_le_of_lt hlower (lt_pow_decimalLength n))
  have h2 := (Nat.pow_lt_pow_iff_right (by decide : 1 < 10)).mp
    (lt_of_le_of_lt (pow_decimalLength_le hn) hupper)
  omega

theorem decimalLength_mul_pow {n : Nat} (hn : 0 < n) (k : Nat) :
    decimalLength (n * 10 ^ k) = decimalLength n + k := by
  have hlength := decimalLength_pos n
  have hpow : 0 < 10 ^ k := Nat.pow_pos (by decide)
  rw [show decimalLength n + k = decimalLength n - 1 + k + 1 by omega]
  refine decimalLength_eq ?_ ?_
  · rw [Nat.pow_add]
    exact Nat.mul_le_mul_right _ (pow_decimalLength_le hn)
  · rw [show decimalLength n - 1 + k + 1 = decimalLength n + k by omega, Nat.pow_add]
    exact Nat.mul_lt_mul_of_pos_right (lt_pow_decimalLength n) hpow

/-- A whole number times a power of a base, as a quotient. -/
def powerRatio (base digits : Nat) (exponent : ℤ) : Nat × Nat :=
  if exponent < 0 then (digits, Nat.pow base (-exponent).toNat)
  else (digits * Nat.pow base exponent.toNat, 1)

theorem powerRatio_pos {base : Nat} (hbase : 0 < base) (digits : Nat) (exponent : ℤ) :
    0 < (powerRatio base digits exponent).2 := by
  rw [powerRatio]
  split
  · exact Nat.pow_pos hbase
  · exact Nat.one_pos

theorem powerRatio_eq (base digits : Nat) (exponent : ℤ) :
    ((powerRatio base digits exponent).1 : ℚ) / (powerRatio base digits exponent).2 =
      digits * base ^ exponent := by
  rw [powerRatio]
  split
  · next h =>
    obtain ⟨k, rfl⟩ : ∃ k : ℕ, exponent = -k := ⟨(-exponent).toNat, by omega⟩
    rw [Nat.pow_eq, neg_neg, Int.toNat_natCast, zpow_neg, zpow_natCast]
    push_cast
    rw [div_eq_mul_inv]
  · next h =>
    obtain ⟨k, rfl⟩ : ∃ k : ℕ, exponent = k := ⟨exponent.toNat, by omega⟩
    rw [Nat.pow_eq, Int.toNat_natCast, zpow_natCast]
    push_cast
    rw [div_one]

/-- A decimal that is not far out of reach is rounded as a quotient. -/
theorem ofDecimal_eq {digits : Nat} (hdigits : 0 < digits) (negative : Bool) (exponent : ℤ) :
    ofDecimal negative digits exponent =
      if 400 < exponent + decimalLength digits then .infinity negative
      else if exponent + decimalLength digits < -400 then zero negative
      else ofRatio negative (powerRatio 10 digits exponent).1
        (powerRatio 10 digits exponent).2 := by
  rw [ofDecimal, if_neg hdigits.ne', powerRatio]
  dsimp only
  split
  · rfl
  · split
    · rfl
    · split <;> rfl

theorem isCanonical_ofDecimal (negative : Bool) (digits : Nat) (exponent : ℤ) :
    (ofDecimal negative digits exponent).IsCanonical := by
  have hzero : (zero negative).IsCanonical :=
    ⟨by decide, le_rfl, by decide, fun h ↦ absurd h (lt_irrefl _)⟩
  rcases Nat.eq_zero_or_pos digits with rfl | hdigits
  · rw [ofDecimal, if_pos rfl]
    exact hzero
  rw [ofDecimal_eq hdigits]
  split
  · trivial
  · split
    · exact hzero
    · exact isCanonical_ofRatio _ _ (powerRatio_pos (by decide) digits exponent)

/-- **Zeros may be moved between the digits and the exponent.** -/
theorem ofDecimal_shift (negative : Bool) (digits k : Nat) (exponent : ℤ) :
    ofDecimal negative (digits * 10 ^ k) (exponent - k) = ofDecimal negative digits exponent := by
  rcases Nat.eq_zero_or_pos digits with rfl | hdigits
  · rw [Nat.zero_mul, ofDecimal, ofDecimal, if_pos rfl, if_pos rfl]
  have hpow : 0 < 10 ^ k := Nat.pow_pos (by decide)
  have hreach : exponent - k + decimalLength (digits * 10 ^ k) =
      exponent + decimalLength digits := by
    rw [decimalLength_mul_pow hdigits]
    push_cast
    ring
  rw [ofDecimal_eq hdigits, ofDecimal_eq (Nat.mul_pos hdigits hpow), hreach]
  congr 2
  -- the two quotients are multiples of one, whichever of the exponents are negative
  have hfirst := powerRatio_pos (show 0 < 10 by decide) digits exponent
  have hsecond := powerRatio_pos (show 0 < 10 by decide) (digits * 10 ^ k) (exponent - k)
  have hvalue : ((powerRatio 10 (digits * 10 ^ k) (exponent - k)).1 : ℚ) /
      (powerRatio 10 (digits * 10 ^ k) (exponent - k)).2 =
      (powerRatio 10 digits exponent).1 / (powerRatio 10 digits exponent).2 := by
    rw [powerRatio_eq, powerRatio_eq, Nat.cast_ofNat, zpow_sub₀ (by norm_num), zpow_natCast]
    push_cast
    field_simp
  generalize powerRatio 10 digits exponent = q at *
  generalize powerRatio 10 (digits * 10 ^ k) (exponent - k) = r at *
  have hcross : r.1 * q.2 = q.1 * r.2 := by
    rw [div_eq_div_iff (by exact_mod_cast hsecond.ne') (by exact_mod_cast hfirst.ne')] at hvalue
    exact_mod_cast hvalue
  rw [← ofRatio_mul hfirst r.1 hsecond, ← ofRatio_mul hsecond q.1 hfirst, Nat.mul_comm q.2 r.1,
    hcross, Nat.mul_comm q.1, Nat.mul_comm q.2]

/-- The powers of ten at the bounds of reach are past the powers of two at the bounds of all
numbers. -/
theorem two_pow_lt_ten_pow : (2 : ℚ) ^ (1075 : ℤ) < 10 ^ (400 : ℤ) := by
  calc (2 : ℚ) ^ (1075 : ℤ) ≤ 2 ^ ((75 : ℤ) * 16) := zpow_le_zpow_right₀ one_le_two (by norm_num)
    _ = (2 ^ (75 : ℤ)) ^ (16 : ℤ) := zpow_mul _ _ _
    _ < (10 ^ (25 : ℤ)) ^ (16 : ℤ) := by
        rw [zpow_ofNat _ 16, zpow_ofNat _ 16]
        exact pow_lt_pow_left₀ (by norm_num) (by positivity) (by norm_num)
    _ = 10 ^ (400 : ℤ) := (zpow_mul _ _ _).symm

/-- **A decimal is rounded to the number that it is near to**, as a quotient is. -/
theorem ofDecimal_eq_finite {digits m : Nat} {exponent e : ℤ} (hdigits : 0 < digits)
    (hpos : 0 < m) (hcanonical : (finite false m e).IsCanonical)
    (hnear : |(digits * 10 ^ exponent : ℚ) / 2 ^ e - m| < 1 / 2)
    (hbinade : significandBound = 2 * m → (m : ℚ) - digits * 10 ^ exponent / 2 ^ e < 1 / 4)
    (negative : Bool) : ofDecimal negative digits exponent = .finite negative m e := by
  obtain ⟨hbound, hleast, hmax, -⟩ := id hcanonical
  have hunit : (0 : ℚ) < 2 ^ e := by positivity
  obtain ⟨hlower, hupper⟩ := abs_lt.mp hnear
  have hone : (1 : ℚ) ≤ m := by exact_mod_cast hpos
  -- the decimal lies between the powers of two next to the bounds of all numbers
  have hbelow : (digits * 10 ^ exponent : ℚ) < 2 ^ (1024 : ℤ) := by
    have hm : (m : ℚ) + 1 ≤ 2 ^ (53 : ℤ) := by exact_mod_cast Nat.succ_le_of_lt hbound
    calc (digits * 10 ^ exponent : ℚ) < (m + 1) * 2 ^ e := by
          rw [← div_lt_iff₀ hunit]; linarith
      _ ≤ 2 ^ (53 : ℤ) * 2 ^ (971 : ℤ) := by
          exact mul_le_mul hm (zpow_le_zpow_right₀ one_le_two hmax) hunit.le (by positivity)
      _ = 2 ^ (1024 : ℤ) := by rw [← zpow_add₀ two_ne_zero]; norm_num
  have habove : (2 : ℚ) ^ (-1075 : ℤ) < digits * 10 ^ exponent := by
    calc (2 : ℚ) ^ (-1075 : ℤ) = 2 ^ (-1 : ℤ) * 2 ^ (-1074 : ℤ) := by
          rw [← zpow_add₀ two_ne_zero]; norm_num
      _ ≤ 2 ^ (-1 : ℤ) * 2 ^ e :=
          mul_le_mul_of_nonneg_left (zpow_le_zpow_right₀ one_le_two hleast) (by positivity)
      _ < digits * 10 ^ exponent := by
          rw [← lt_div_iff₀ hunit, zpow_neg_one]; linarith
  have hten : (0 : ℚ) < 10 ^ exponent := by positivity
  have hfar : ¬ 400 < exponent + decimalLength digits := by
    intro hreach
    have hle : (10 : ℚ) ^ (400 : ℤ) ≤ digits * 10 ^ exponent := by
      calc (10 : ℚ) ^ (400 : ℤ) ≤ 10 ^ (((decimalLength digits - 1 : ℕ) : ℤ) + exponent) :=
            zpow_le_zpow_right₀ (by norm_num) (by have := decimalLength_pos digits; omega)
        _ = 10 ^ (decimalLength digits - 1) * 10 ^ exponent := by
            rw [zpow_add₀ (by norm_num), zpow_natCast]
        _ ≤ digits * 10 ^ exponent :=
            mul_le_mul_of_nonneg_right (by exact_mod_cast pow_decimalLength_le hdigits) hten.le
    have hpow : (2 : ℚ) ^ (1024 : ℤ) ≤ 2 ^ (1075 : ℤ) :=
      zpow_le_zpow_right₀ one_le_two (by norm_num)
    exact absurd (hle.trans_lt (hbelow.trans_le (hpow.trans two_pow_lt_ten_pow.le))) (lt_irrefl _)
  have hclose : ¬ exponent + decimalLength digits < -400 := by
    intro hreach
    have hlt : (digits * 10 ^ exponent : ℚ) < 10 ^ (-400 : ℤ) := by
      calc (digits * 10 ^ exponent : ℚ) < 10 ^ decimalLength digits * 10 ^ exponent :=
            mul_lt_mul_of_pos_right (by exact_mod_cast lt_pow_decimalLength digits) hten
        _ = 10 ^ ((decimalLength digits : ℤ) + exponent) := by
            rw [zpow_add₀ (by norm_num), zpow_natCast]
        _ ≤ 10 ^ (-400 : ℤ) := zpow_le_zpow_right₀ (by norm_num) (by omega)
    have hpow : (10 : ℚ) ^ (-400 : ℤ) < 2 ^ (-1075 : ℤ) := by
      rw [zpow_neg, zpow_neg]
      exact inv_strictAnti₀ (by positivity) two_pow_lt_ten_pow
    exact absurd (habove.trans (hlt.trans hpow)) (lt_irrefl _)
  have hvalue := powerRatio_eq 10 digits exponent
  rw [Nat.cast_ofNat] at hvalue
  rw [ofDecimal_eq hdigits, if_neg hfar, if_neg hclose]
  rw [← hvalue] at hnear hbinade
  exact ofRatio_eq_finite (powerRatio_pos (by decide) _ _) hpos hcanonical hnear hbinade negative

end Binary64
end NodeSchema
