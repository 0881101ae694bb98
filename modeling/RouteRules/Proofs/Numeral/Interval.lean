import RouteRules.Proofs.Key
import RouteRules.Proofs.Numeral.Decimal

/-!
# Numbers that round to a double

The numbers that round to a magnitude fill an interval around it, up to halfway to its neighbours.
The intervals of two magnitudes lie in the order of the magnitudes and do not overlap: where they
meet, one of the mantissas is odd.

## Main definitions

- `Magnitude.value`: the rational number that a magnitude is.
- `Magnitude.Attracts`: a number rounds to the magnitude.

## Main statements

- `Magnitude.readsBack_iff`: a decimal is tested by what it is worth.
- `Magnitude.Attracts.lt`: numbers that round to a smaller magnitude are smaller.
-/

namespace RouteRules.Magnitude

variable {x y : Magnitude} {a b c : ℚ}

/-- The number that the magnitude is. -/
def value (x : Magnitude) : ℚ := x.units / unitsInOne

/-! ## Ends of intervals -/

/-- The lower end of the interval, in quarters of a unit. -/
def lowQuarters (x : Magnitude) : ℕ :=
  (4 * x.mantissa - if x.narrowBelow then 1 else 2) * Nat.pow 2 x.shift

/-- The upper end of the interval, in quarters of a unit. -/
def highQuarters (x : Magnitude) : ℕ := (4 * x.mantissa + 2) * Nat.pow 2 x.shift

def low (x : Magnitude) : ℚ := x.lowQuarters / (4 * unitsInOne)

def high (x : Magnitude) : ℚ := x.highQuarters / (4 * unitsInOne)

/-- The number rounds to the magnitude. The ends of the interval do so if the mantissa is even. -/
structure Attracts (x : Magnitude) (a : ℚ) : Prop where
  low : x.low < a ∨ x.mantissa % 2 = 0 ∧ a = x.low
  high : a < x.high ∨ x.mantissa % 2 = 0 ∧ a = x.high

theorem quarters_pos : (0 : ℚ) < 4 * unitsInOne := by
  have hone : (0 : ℚ) < unitsInOne := by exact_mod_cast unitsInOne_pos
  linarith

theorem den_pos (x : Magnitude) : 0 < x.den := Nat.pow_pos (by decide)

/-- A fraction of powers of two, in units. -/
theorem mul_pow_sub_div (m s : ℕ) :
    ((m * Nat.pow 2 (s - 1074) : ℕ) : ℚ) / (Nat.pow 2 (1074 - s) : ℕ) =
      (m * Nat.pow 2 s : ℕ) / unitsInOne := by
  unfold unitsInOne
  generalize 1074 = k
  have hleft : ((Nat.pow 2 (k - s) : ℕ) : ℚ) ≠ 0 := by
    exact_mod_cast Nat.ne_of_gt (Nat.pow_pos (by decide))
  have hright : ((Nat.pow 2 k : ℕ) : ℚ) ≠ 0 := by
    exact_mod_cast Nat.ne_of_gt (Nat.pow_pos (by decide))
  -- One of the two subtractions is cut off at zero, so that the powers agree in total.
  have hpow : Nat.pow 2 (s - k) * Nat.pow 2 k = Nat.pow 2 s * Nat.pow 2 (k - s) := by
    simp only [Nat.pow_eq, ← Nat.pow_add]
    congr 1
    omega
  rw [div_eq_div_iff hleft hright]
  exact_mod_cast by rw [Nat.mul_assoc, hpow, ← Nat.mul_assoc]

theorem num_div_den (x : Magnitude) : (x.num : ℚ) / x.den = x.value := mul_pow_sub_div _ _

theorem quarter_div (m s : ℕ) :
    ((m * Nat.pow 2 (s - 1074) : ℕ) : ℚ) / (4 * Nat.pow 2 (1074 - s) : ℕ) =
      (m * Nat.pow 2 s : ℕ) / (4 * unitsInOne) := by
  rw [Nat.cast_mul 4, Nat.cast_ofNat, mul_comm (4 : ℚ), ← div_div, mul_pow_sub_div, div_div,
    mul_comm (4 : ℚ)]

theorem lowerEnd_div (x : Magnitude) : (x.lowerEnd : ℚ) / (4 * x.den : ℕ) = x.low :=
  quarter_div _ _

theorem upperEnd_div (x : Magnitude) : (x.upperEnd : ℚ) / (4 * x.den : ℕ) = x.high :=
  quarter_div _ _

/-- A decimal is tested by what it is worth. -/
theorem readsBack_iff (x : Magnitude) (d : Decimal) :
    x.readsBack d = true ↔ x.Attracts d.value := by
  have hden : 0 < 4 * x.den := Nat.mul_pos (by decide) x.den_pos
  have hlow := d.compareTo_eq x.lowerEnd hden
  have hhigh := d.compareTo_eq x.upperEnd hden
  rw [lowerEnd_div] at hlow
  rw [upperEnd_div] at hhigh
  simp only [readsBack, hlow, hhigh, Bool.and_eq_true, Bool.or_eq_true, beq_iff_eq,
    compare_gt_iff_gt, compare_lt_iff_lt, compare_eq_iff_eq]
  exact ⟨fun h => ⟨h.1, h.2⟩, fun h => ⟨h.low, h.high⟩⟩

/-! ## Order of intervals -/

/-- The interval of a smaller magnitude ends where that of the larger one begins, or before. If it
ends there, one of the mantissas is odd. -/
theorem highQuarters_le_lowQuarters (h : x.units < y.units) :
    x.highQuarters ≤ y.lowQuarters ∧
      (x.mantissa % 2 = 0 → y.mantissa % 2 = 0 → x.highQuarters < y.lowQuarters) := by
  obtain ⟨k, hk⟩ := Nat.exists_eq_add_of_le (shift_le_of_units_le (Nat.le_of_lt h))
  have hpos : 0 < Nat.pow 2 x.shift := Nat.pow_pos (by decide)
  have hpow : Nat.pow 2 y.shift = Nat.pow 2 k * Nat.pow 2 x.shift := by
    rw [hk, Nat.add_comm]
    exact Nat.pow_add ..
  -- Both ends are counted in the units of the smaller magnitude.
  suffices hends : 4 * x.mantissa + 2 ≤
        (4 * y.mantissa - if y.narrowBelow then 1 else 2) * Nat.pow 2 k ∧
      (x.mantissa % 2 = 0 → y.mantissa % 2 = 0 → 4 * x.mantissa + 2 <
        (4 * y.mantissa - if y.narrowBelow then 1 else 2) * Nat.pow 2 k) by
    unfold highQuarters lowQuarters
    rw [hpow, ← Nat.mul_assoc]
    exact ⟨Nat.mul_le_mul_right _ hends.1,
      fun hx hy => Nat.mul_lt_mul_of_pos_right (hends.2 hx hy) hpos⟩
  -- Under one shift the mantissas are compared; otherwise the larger magnitude has the larger unit.
  cases k with
  | zero =>
    have hlt : x.mantissa < y.mantissa := by
      rw [units, units, hpow, ← Nat.mul_assoc] at h
      have hlt := Nat.lt_of_mul_lt_mul_right h
      rwa [Nat.pow_eq, Nat.pow_zero, Nat.mul_one] at hlt
    rw [Nat.pow_eq, Nat.pow_zero, Nat.mul_one]
    split <;> omega
  | succ k =>
    -- The mantissa of the larger magnitude uses its top bit.
    have hx : x.mantissa < 2 ^ 53 := x.mantissa_lt
    have hy : 2 ^ 52 ≤ y.mantissa := y.normal.resolve_left (by omega)
    have htwo : 2 ≤ Nat.pow 2 (k + 1) := by
      rw [Nat.pow_eq, Nat.pow_succ]
      have := Nat.one_le_two_pow (n := k)
      omega
    have hle : (4 * y.mantissa - if y.narrowBelow then 1 else 2) * 2 ≤
        (4 * y.mantissa - if y.narrowBelow then 1 else 2) * Nat.pow 2 (k + 1) :=
      Nat.mul_le_mul_left _ htwo
    revert hle
    generalize (4 * y.mantissa - if y.narrowBelow then 1 else 2) * Nat.pow 2 (k + 1) = e
    -- Only the least mantissa of all has a neighbour at half the distance.
    by_cases hnarrow : y.narrowBelow = true
    · rw [if_pos hnarrow]
      intro hle
      omega
    · have hne : y.mantissa ≠ 2 ^ 52 := by
        intro heq
        apply hnarrow
        unfold narrowBelow
        rw [heq, hk]
        simp
      rw [if_neg hnarrow]
      intro hle
      omega

/-- Numbers that round to a smaller magnitude are smaller. -/
theorem Attracts.lt (ha : x.Attracts a) (hb : y.Attracts b) (h : x.units < y.units) : a < b := by
  obtain ⟨hle, hlt⟩ := highQuarters_le_lowQuarters h
  have hends : x.high ≤ y.low := div_le_div_of_nonneg_right (by exact_mod_cast hle) quarters_pos.le
  -- The two intervals meet in one point at most, and only if it belongs to neither.
  rcases ha.high with ha | ⟨hx, ha⟩
  · rcases hb.low with hb | ⟨_, hb⟩ <;> linarith
  · rcases hb.low with hb | ⟨hy, hb⟩
    · linarith
    -- Both numbers are ends, so both mantissas are even.
    · have hends : x.high < y.low :=
        div_lt_div_of_pos_right (by exact_mod_cast hlt hx hy) quarters_pos
      linarith

/-- What rounds to a magnitude rounds to no other. -/
theorem Attracts.unique (hx : x.Attracts a) (hy : y.Attracts a) : x = y := by
  apply eq_of_units_eq
  rcases Nat.lt_trichotomy x.units y.units with h | h | h
  · exact absurd (hx.lt hy h) (lt_irrefl a)
  · exact h
  · exact absurd (hy.lt hx h) (lt_irrefl a)

/-- What lies between two numbers that round to a magnitude rounds to it too. -/
theorem Attracts.between (ha : x.Attracts a) (hc : x.Attracts c) (hab : a ≤ b) (hbc : b ≤ c) :
    x.Attracts b where
  low := by
    rcases ha.low with h | ⟨heven, h⟩
    · exact .inl (h.trans_le hab)
    · rcases hab.lt_or_eq with hlt | heq
      · exact .inl (h ▸ hlt)
      · exact .inr ⟨heven, heq ▸ h⟩
  high := by
    rcases hc.high with h | ⟨heven, h⟩
    · exact .inl (hbc.trans_lt h)
    · rcases hbc.lt_or_eq with hlt | heq
      · exact .inl (h ▸ hlt)
      · exact .inr ⟨heven, heq.trans h⟩

/-! ## Positive magnitudes -/

theorem value_eq_quarters (x : Magnitude) :
    x.value = (4 * x.units : ℕ) / (4 * unitsInOne) := by
  rw [Nat.cast_mul, Nat.cast_ofNat, mul_div_mul_left _ _ (by norm_num)]
  rfl

theorem low_lt_value (h : x.mantissa ≠ 0) : x.low < x.value := by
  have hpos : 0 < Nat.pow 2 x.shift := Nat.pow_pos (by decide)
  have hlt : x.lowQuarters < 4 * x.units := by
    unfold lowQuarters units
    rw [← Nat.mul_assoc]
    apply Nat.mul_lt_mul_of_pos_right _ hpos
    split <;> omega
  rw [value_eq_quarters]
  exact div_lt_div_of_pos_right (by exact_mod_cast hlt) quarters_pos

theorem value_lt_high (x : Magnitude) : x.value < x.high := by
  have hpos : 0 < Nat.pow 2 x.shift := Nat.pow_pos (by decide)
  have hlt : 4 * x.units < x.highQuarters := by
    unfold highQuarters units
    rw [← Nat.mul_assoc]
    apply Nat.mul_lt_mul_of_pos_right _ hpos
    omega
  rw [value_eq_quarters]
  exact div_lt_div_of_pos_right (by exact_mod_cast hlt) quarters_pos

theorem low_pos (h : x.mantissa ≠ 0) : 0 < x.low := by
  have hpos : 0 < x.lowQuarters := by
    apply Nat.mul_pos _ (Nat.pow_pos (by decide))
    split <;> omega
  exact div_pos (by exact_mod_cast hpos) quarters_pos

/-- A positive magnitude rounds to itself. -/
theorem attracts_value (h : x.mantissa ≠ 0) : x.Attracts x.value :=
  ⟨.inl (low_lt_value h), .inl x.value_lt_high⟩

/-- What rounds to a positive magnitude is positive. -/
theorem Attracts.pos (ha : x.Attracts a) (h : x.mantissa ≠ 0) : 0 < a := by
  have hlow := low_pos h
  rcases ha.low with ha | ⟨_, ha⟩ <;> linarith

end RouteRules.Magnitude
