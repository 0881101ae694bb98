import Mathlib.Algebra.Order.Field.Power
import Mathlib.Data.Rat.Cast.Order
import Mathlib.Tactic.FieldSimp
import Mathlib.Tactic.Linarith
import Mathlib.Tactic.NormNum
import Mathlib.Tactic.Positivity
import Mathlib.Tactic.Ring
import RouteRules.Numeral.Decimal

/-!
# What decimals are worth

The rational number that a decimal is, and what its digits say about it.

## Main definitions

- `Decimal.value`: the number.

## Main statements

- `Decimal.compareTo_eq`: decimals are compared with fractions by what they are worth.
- `Decimal.value_strip`, `Decimal.strip_mod_ten`: without its trailing zeros a decimal is worth the
  same, and its last digit is not zero.
- `Decimal.le_leadExponent_iff`: the leading power of ten says how large the number is.
-/

namespace RouteRules

namespace Decimal

variable {d : Decimal}

/-- The number `digits * 10 ^ exponent`. -/
def value (d : Decimal) : ℚ := d.digits * 10 ^ d.exponent

theorem ten_zpow_pos (e : ℤ) : (0 : ℚ) < 10 ^ e := zpow_pos (by norm_num) e

theorem digits_ne_zero (h : 0 < d.value) : d.digits ≠ 0 := by
  intro hzero
  rw [value, hzero, Nat.cast_zero, zero_mul] at h
  exact lt_irrefl _ h

theorem value_eq_mul {k : ℕ} (h : d.exponent = k) : d.value = (d.digits * 10 ^ k : ℕ) := by
  rw [value, h, zpow_natCast]
  push_cast
  rfl

theorem value_eq_div {k : ℕ} (h : d.exponent = -(k : ℤ)) : d.value = d.digits / 10 ^ k := by
  rw [value, h, zpow_neg, zpow_natCast, div_eq_mul_inv]

/-! ## Comparison -/

/-- A negative power of ten, moved to the other side. -/
theorem ten_zpow_mul (e : ℤ) : (10 : ℚ) ^ e * 10 ^ (-e).toNat = 10 ^ e.toNat := by
  rw [← zpow_natCast, ← zpow_natCast, ← zpow_add₀ (by norm_num)]
  congr 1
  omega

/-- Decimals are compared with fractions by what they are worth. -/
theorem compareTo_eq (d : Decimal) (num : ℕ) {den : ℕ} (hden : 0 < den) :
    d.compareTo num den = compare d.value (num / den) := by
  have hden : (0 : ℚ) < den := by exact_mod_cast hden
  have hscale : (0 : ℚ) < 10 ^ (-d.exponent).toNat * den := by positivity
  -- Both sides of the comparison are scaled up to natural numbers.
  have hleft : ((d.digits * Nat.pow 10 d.exponent.toNat * den : ℕ) : ℚ) =
      d.value * (10 ^ (-d.exponent).toNat * den) := by
    have hexponent := ten_zpow_mul d.exponent
    rw [value, Nat.pow_eq]
    push_cast
    rw [← hexponent]
    ring
  have hright : ((num * Nat.pow 10 (-d.exponent).toNat : ℕ) : ℚ) =
      num / den * (10 ^ (-d.exponent).toNat * den) := by
    rw [Nat.pow_eq]
    push_cast
    field_simp
  unfold compareTo
  rcases lt_trichotomy d.value (num / den) with h | h | h
  · rw [compare_lt_iff_lt.mpr h, compare_lt_iff_lt, ← Nat.cast_lt (α := ℚ), hleft, hright]
    exact mul_lt_mul_of_pos_right h hscale
  · rw [compare_eq_iff_eq.mpr h, compare_eq_iff_eq, ← Nat.cast_inj (R := ℚ), hleft, hright, h]
  · rw [compare_gt_iff_gt.mpr h, compare_gt_iff_gt, ← Nat.cast_lt (α := ℚ), hleft, hright]
    exact mul_lt_mul_of_pos_right h hscale

/-! ## Trailing zeros -/

theorem value_shift (n : ℕ) (e : ℤ) : value ⟨n * 10, e⟩ = value ⟨n, e + 1⟩ := by
  rw [value, value, zpow_add₀ (by norm_num), zpow_one]
  push_cast
  ring

/-- Trailing zeros do not change what a decimal is worth. -/
theorem value_strip (d : Decimal) : d.strip.value = d.value := by
  fun_induction strip d with
  | case1 d h ih =>
    have hdigits : d.digits / 10 * 10 = d.digits := Nat.div_mul_cancel (Nat.dvd_of_mod_eq_zero h.2)
    rw [ih, ← value_shift, hdigits]
  | case2 d h => rfl

theorem strip_digits_le (d : Decimal) : d.strip.digits ≤ d.digits := by
  fun_induction strip d with
  | case1 d h ih => exact ih.trans (Nat.div_le_self _ _)
  | case2 d h => exact le_rfl

/-- A positive number has digits without trailing zeros. -/
theorem strip_mod_ten (h : d.digits ≠ 0) : d.strip.digits % 10 ≠ 0 := by
  -- As long as zeros are taken off, digits are left.
  fun_induction strip d with
  | case1 d hd ih =>
    apply ih
    show d.digits / 10 ≠ 0
    omega
  | case2 d hd => exact fun hmod => hd ⟨h, hmod⟩

/-! ## Leading power of ten -/

theorem zpow_add_le_value_iff (d : Decimal) (k : ℕ) :
    10 ^ (d.exponent + k) ≤ d.value ↔ 10 ^ k ≤ d.digits := by
  have hpos := ten_zpow_pos d.exponent
  rw [value, zpow_add₀ (by norm_num), mul_comm, mul_le_mul_iff_left₀ hpos, zpow_natCast]
  exact_mod_cast Iff.rfl

/-- The leading power of ten tells how large a positive number is. -/
theorem le_leadExponent_iff (h : d.digits ≠ 0) (e : ℤ) :
    e ≤ d.leadExponent ↔ (10 : ℚ) ^ e ≤ d.value := by
  have hlength : 0 < d.toDigits.length := Nat.length_toDigits_pos
  by_cases he : e ≤ d.exponent
  -- One digit is enough.
  · have hvalue : (10 : ℚ) ^ d.exponent ≤ d.value := by
      have hdigits := (d.zpow_add_le_value_iff 0).mpr (Nat.one_le_iff_ne_zero.mpr h)
      rwa [Nat.cast_zero, add_zero] at hdigits
    have hpow : (10 : ℚ) ^ e ≤ 10 ^ d.exponent := zpow_le_zpow_right₀ (by norm_num) he
    unfold leadExponent
    exact iff_of_true (by omega) (hpow.trans hvalue)
  · obtain ⟨k, rfl⟩ : ∃ k : ℕ, e = d.exponent + k := ⟨(e - d.exponent).toNat, by omega⟩
    have hk : 0 < k := by omega
    -- Otherwise the power is reached exactly if there are more than `k` digits.
    have hcount : d.toDigits.length ≤ k ↔ d.digits < 10 ^ k :=
      Nat.length_toDigits_le_iff (by decide) hk
    rw [zpow_add_le_value_iff, ← Nat.not_lt, ← hcount]
    unfold leadExponent
    omega

end Decimal

end RouteRules
