import Mathlib.Data.Nat.Cast.Order.Field
import RouteRules.Proofs.Numeral.Rounding

/-!
# Shortest decimals

The decimal that a double is written with rounds to the double. No decimal with fewer digits does,
and of those with as many digits none is nearer.

## Main definitions

- `Magnitude.IsShortest`: a decimal is the shortest that rounds to a magnitude.

## Main statements

- `Magnitude.isShortest_shortest`: the search finds the shortest decimal.
- `Magnitude.shortest_lt`, `Magnitude.shortest_le_iff`: shortest decimals are in the order of the
  magnitudes.
-/

namespace RouteRules

/-- The first of some numbers for which there is a result. -/
theorem findSome?_range_eq_some {α : Type} {f : ℕ → Option α} {n : ℕ} {a : α}
    (h : (List.range n).findSome? f = some a) :
    ∃ i < n, f i = some a ∧ ∀ j < i, f j = none := by
  induction n with
  | zero => cases h
  | succ n ih =>
    rw [List.range_succ, List.findSome?_append] at h
    cases hbefore : (List.range n).findSome? f with
    | some b =>
      rw [hbefore, Option.some_or] at h
      cases h
      obtain ⟨i, hi, hf⟩ := ih hbefore
      exact ⟨i, by omega, hf⟩
    | none =>
      rw [hbefore, Option.none_or] at h
      refine ⟨n, by omega, by simpa using h, fun j hj => ?_⟩
      exact List.findSome?_eq_none_iff.mp hbefore j (List.mem_range.mpr hj)

namespace Magnitude

variable {x y : Magnitude} {d : Decimal} {grid : ℤ}

/-! ## Points on a grid -/

/-- How often `10 ^ grid` goes into the magnitude. -/
def below (x : Magnitude) (grid : ℤ) : ℕ := (x.onGrid grid).1 / (x.onGrid grid).2

theorem onGrid_pos (x : Magnitude) (grid : ℤ) : 0 < (x.onGrid grid).2 :=
  Nat.mul_pos x.den_pos (Nat.pow_pos (by decide))

theorem onGrid_div (x : Magnitude) (grid : ℤ) :
    ((x.onGrid grid).1 : ℚ) / (x.onGrid grid).2 = x.value / 10 ^ grid := by
  have hden : (x.den : ℚ) ≠ 0 := by exact_mod_cast Nat.ne_of_gt x.den_pos
  have hgrid := Decimal.ten_zpow_mul grid
  have hpow : (10 : ℚ) ^ grid.toNat ≠ 0 := by positivity
  have hne := (Decimal.ten_zpow_pos grid).ne'
  rw [← num_div_den, div_div]
  simp only [onGrid, Nat.pow_eq]
  push_cast
  rw [div_eq_div_iff (mul_ne_zero hden hpow) (mul_ne_zero hden hne), ← hgrid]
  ring

theorem value_below_le (x : Magnitude) (grid : ℤ) :
    Decimal.value ⟨x.below grid, grid⟩ ≤ x.value := by
  have hdiv : (x.below grid : ℚ) ≤ x.value / 10 ^ grid := by
    rw [← onGrid_div]
    exact Nat.cast_div_le
  exact (le_div_iff₀ (Decimal.ten_zpow_pos grid)).mp hdiv

theorem lt_value_above (x : Magnitude) (grid : ℤ) :
    x.value < Decimal.value ⟨x.below grid + 1, grid⟩ := by
  have hpos : (0 : ℚ) < (x.onGrid grid).2 := by exact_mod_cast x.onGrid_pos grid
  have hlt : (x.onGrid grid).1 < (x.below grid + 1) * (x.onGrid grid).2 :=
    (Nat.div_lt_iff_lt_mul (x.onGrid_pos grid)).mp (Nat.lt_succ_self _)
  have hdiv : x.value / 10 ^ grid < (x.below grid + 1 : ℕ) := by
    rw [← onGrid_div, div_lt_iff₀ hpos]
    exact_mod_cast hlt
  exact (div_lt_iff₀ (Decimal.ten_zpow_pos grid)).mp hdiv

theorem value_le_value {m n : ℕ} (h : m ≤ n) (grid : ℤ) :
    Decimal.value ⟨m, grid⟩ ≤ Decimal.value ⟨n, grid⟩ :=
  mul_le_mul_of_nonneg_right (by exact_mod_cast h) (Decimal.ten_zpow_pos grid).le

/-- A point that is found is one of the two next to the magnitude, and rounds to it. -/
theorem pointOn?_eq_some (h : x.pointOn? grid = some d) :
    x.Attracts d.value ∧ ∃ n, d = ⟨n, grid⟩ ∧ (n = x.below grid ∨ n = x.below grid + 1) := by
  simp only [pointOn?] at h
  split at h
  · rename_i hbelow habove
    cases h
    rcases (roundHalfEven_spec (x.onGrid grid).1 (x.onGrid grid).2).1 with ⟨hround, _⟩ | ⟨hround, _⟩
    · rw [hround]
      exact ⟨(x.readsBack_iff _).mp hbelow, _, rfl, .inl rfl⟩
    · rw [hround]
      exact ⟨(x.readsBack_iff _).mp habove, _, rfl, .inr rfl⟩
  · rename_i hbelow _
    cases h
    exact ⟨(x.readsBack_iff _).mp hbelow, _, rfl, .inl rfl⟩
  · rename_i _ habove
    cases h
    exact ⟨(x.readsBack_iff _).mp habove, _, rfl, .inr rfl⟩
  · cases h

theorem pointOn?_ne_none (h : x.Attracts (Decimal.value ⟨x.below grid, grid⟩) ∨
    x.Attracts (Decimal.value ⟨x.below grid + 1, grid⟩)) : x.pointOn? grid ≠ none := by
  intro hnone
  simp only [pointOn?] at hnone
  split at hnone
  · cases hnone
  · cases hnone
  · cases hnone
  · rename_i hbelow habove
    rcases h with h | h
    · rw [← readsBack_iff] at h
      exact Bool.false_ne_true (hbelow.symm.trans h)
    · rw [← readsBack_iff] at h
      exact Bool.false_ne_true (habove.symm.trans h)

/-- If some point of the grid rounds to the magnitude, one is found. -/
theorem pointOn?_ne_none_of_attracts (hx : x.mantissa ≠ 0) {n : ℕ}
    (h : x.Attracts (Decimal.value ⟨n, grid⟩)) : x.pointOn? grid ≠ none := by
  apply pointOn?_ne_none
  have hvalue := attracts_value hx
  -- Between a point of the interval and the magnitude lies its neighbour on the same side.
  rcases Nat.lt_or_ge (x.below grid) n with hn | hn
  · exact .inr (hvalue.between h (x.lt_value_above grid).le (value_le_value hn grid))
  · exact .inl (h.between hvalue (value_le_value hn grid) (x.value_below_le grid))

/-- If the interval is longer than the distance of two points, one is found. -/
theorem pointOn?_ne_none_of_lt (hx : x.mantissa ≠ 0) (h : (10 : ℚ) ^ grid < x.high - x.low) :
    x.pointOn? grid ≠ none := by
  apply pointOn?_ne_none
  have hbelow := x.value_below_le grid
  have habove := x.lt_value_above grid
  have hnext : Decimal.value ⟨x.below grid + 1, grid⟩ =
      Decimal.value ⟨x.below grid, grid⟩ + 10 ^ grid := by
    rw [Decimal.value, Decimal.value]
    push_cast
    ring
  have hlow := low_lt_value hx
  have hhigh := x.value_lt_high
  -- If the point below is not in the interval, the point above is.
  by_cases hend : x.low < Decimal.value ⟨x.below grid, grid⟩
  · exact .inl ⟨.inl hend, .inl (by linarith)⟩
  · exact .inr ⟨.inl (by linarith), .inl (by linarith)⟩

/-! ## The scale of a magnitude -/

theorem value_exact (x : Magnitude) : x.exact.value = x.value := by
  rw [← num_div_den, Decimal.value]
  simp only [exact, den, Nat.pow_eq, zpow_neg, zpow_natCast]
  push_cast
  generalize 1074 - x.shift = k
  have hfive : (5 : ℚ) ^ k ≠ 0 := by positivity
  have hten : (10 : ℚ) ^ k = 2 ^ k * 5 ^ k := by
    rw [← mul_pow]
    norm_num
  calc (x.num : ℚ) * 5 ^ k * (10 ^ k)⁻¹
      = x.num / 2 ^ k * (5 ^ k / 5 ^ k) := by rw [hten]; ring
    _ = x.num / 2 ^ k := by rw [div_self hfive, mul_one]

theorem value_pos (hx : x.mantissa ≠ 0) : 0 < x.value := (low_pos hx).trans (low_lt_value hx)

theorem exact_digits_ne_zero (hx : x.mantissa ≠ 0) : x.exact.digits ≠ 0 := by
  apply Decimal.digits_ne_zero
  rw [value_exact]
  exact value_pos hx

theorem zpow_scale_le_value (hx : x.mantissa ≠ 0) : (10 : ℚ) ^ (x.scale - 1) ≤ x.value := by
  rw [← value_exact, ← Decimal.le_leadExponent_iff (exact_digits_ne_zero hx)]
  unfold scale
  omega

theorem value_lt_zpow_scale (hx : x.mantissa ≠ 0) : x.value < 10 ^ x.scale := by
  rw [← value_exact, ← not_le, ← Decimal.le_leadExponent_iff (exact_digits_ne_zero hx)]
  unfold scale
  omega

/-- The interval is longer than one part in `10 ^ 16`. -/
theorem units_lt_spread (x : Magnitude) :
    4 * x.units + 10 ^ 16 * x.lowQuarters < 10 ^ 16 * x.highQuarters := by
  have hpos : 0 < Nat.pow 2 x.shift := Nat.pow_pos (by decide)
  have hlt : x.mantissa < 2 ^ 53 := x.mantissa_lt
  -- Both ends are scaled by the same power of two, so the mantissas decide.
  have hmantissa : 4 * x.mantissa + 10 ^ 16 * (4 * x.mantissa - if x.narrowBelow then 1 else 2) <
      10 ^ 16 * (4 * x.mantissa + 2) := by
    -- The interval is shorter below a power of two, but there the mantissa is the least one.
    by_cases hnarrow : x.narrowBelow = true
    · have hmantissa : x.mantissa = 2 ^ 52 := by
        unfold narrowBelow at hnarrow
        simp only [Bool.and_eq_true, beq_iff_eq] at hnarrow
        exact hnarrow.1
      rw [if_pos hnarrow]
      omega
    · rw [if_neg hnarrow]
      omega
  unfold units lowQuarters highQuarters
  calc 4 * (x.mantissa * Nat.pow 2 x.shift) +
          10 ^ 16 * ((4 * x.mantissa - if x.narrowBelow then 1 else 2) * Nat.pow 2 x.shift)
      = (4 * x.mantissa + 10 ^ 16 * (4 * x.mantissa - if x.narrowBelow then 1 else 2)) *
          Nat.pow 2 x.shift := by ring
    _ < 10 ^ 16 * (4 * x.mantissa + 2) * Nat.pow 2 x.shift :=
        Nat.mul_lt_mul_of_pos_right hmantissa hpos
    _ = 10 ^ 16 * ((4 * x.mantissa + 2) * Nat.pow 2 x.shift) := by ring

/-- So seventeen digits are enough. -/
theorem pointOn?_seventeen (hx : x.mantissa ≠ 0) : x.pointOn? (x.scale - 17) ≠ none := by
  apply pointOn?_ne_none_of_lt hx
  have hspread : (4 * x.units : ℚ) + 10 ^ 16 * x.lowQuarters < 10 ^ 16 * x.highQuarters := by
    exact_mod_cast x.units_lt_spread
  have hvalue := zpow_scale_le_value hx
  have hgrid : (10 : ℚ) ^ (x.scale - 1) = 10 ^ 16 * 10 ^ (x.scale - 17) := by
    rw [← zpow_natCast, ← zpow_add₀ (by norm_num)]
    congr 1
    push_cast
    omega
  -- The magnitude is at least one in its leading place, and the interval is longer than one part in
  -- ten to the sixteenth of it.
  have hends : x.value < 10 ^ 16 * (x.high - x.low) := by
    rw [value_eq_quarters, high, low, ← sub_div, ← mul_div_assoc]
    apply div_lt_div_of_pos_right _ quarters_pos
    push_cast
    linarith
  linarith

/-! ## The search -/

/-- The search ends at the first grid with a point that rounds to the magnitude. -/
theorem exists_shortest_eq (hx : x.mantissa ≠ 0) : ∃ n p,
    x.pointOn? (x.scale - (n + 1 : ℕ)) = some p ∧
      (∀ m < n, x.pointOn? (x.scale - (m + 1 : ℕ)) = none) ∧ x.shortest = p.strip := by
  cases hsearch : (List.range 17).findSome? fun n : ℕ => x.pointOn? (x.scale - (n + 1)) with
  | none =>
    -- The last grid that is tried is the one for seventeen digits.
    have hlast := List.findSome?_eq_none_iff.mp hsearch 16 (by decide)
    exact absurd hlast (pointOn?_seventeen hx)
  | some p =>
    obtain ⟨n, _, hp, hbefore⟩ := findSome?_range_eq_some hsearch
    refine ⟨n, p, hp, hbefore, ?_⟩
    rw [shortest, hsearch, Option.getD_some]

/-- The shortest decimal rounds to the magnitude. -/
theorem attracts_shortest (hx : x.mantissa ≠ 0) : x.Attracts x.shortest.value := by
  obtain ⟨n, p, hp, _, hshortest⟩ := exists_shortest_eq hx
  rw [hshortest, Decimal.value_strip]
  exact (pointOn?_eq_some hp).1

theorem shortest_digits_ne_zero (hx : x.mantissa ≠ 0) : x.shortest.digits ≠ 0 :=
  Decimal.digits_ne_zero ((attracts_shortest hx).pos hx)

/-- The last digit of the shortest decimal is not zero. -/
theorem shortest_mod_ten (hx : x.mantissa ≠ 0) : x.shortest.digits % 10 ≠ 0 := by
  obtain ⟨n, p, hp, _, hshortest⟩ := exists_shortest_eq hx
  rw [hshortest]
  exact Decimal.strip_mod_ten (Decimal.digits_ne_zero ((pointOn?_eq_some hp).1.pos hx))

/-- Shortest decimals are in the order of the magnitudes. -/
theorem shortest_lt (hx : x.mantissa ≠ 0) (hy : y.mantissa ≠ 0) (h : x.units < y.units) :
    x.shortest.value < y.shortest.value :=
  (attracts_shortest hx).lt (attracts_shortest hy) h

theorem shortest_le_iff (hx : x.mantissa ≠ 0) (hy : y.mantissa ≠ 0) :
    x.shortest.value ≤ y.shortest.value ↔ x.units ≤ y.units := by
  constructor
  · intro h
    by_contra hlt
    exact absurd (shortest_lt hy hx (Nat.not_le.mp hlt)) (not_lt.mpr h)
  · intro h
    rcases Nat.lt_or_eq_of_le h with hlt | heq
    · exact (shortest_lt hx hy hlt).le
    · rw [eq_of_units_eq heq]

/-! ## The fewest digits -/

/-- The decimal is read as the magnitude, none with fewer digits is, and of those with as many
digits none is nearer. -/
structure IsShortest (x : Magnitude) (d : Decimal) : Prop where
  readsAs : d.ReadsAs x
  length_le : ∀ other : Decimal, other.ReadsAs x → d.toDigits.length ≤ other.toDigits.length
  nearest : ∀ other : Decimal, other.ReadsAs x →
    other.toDigits.length = d.toDigits.length → |d.value - x.value| ≤ |other.value - x.value|

/-- For each decimal that rounds to the magnitude, a grid for as many digits has a point that is at
least as near. -/
theorem exists_point (hx : x.mantissa ≠ 0) (hd : x.Attracts d.value) :
    ∃ n : ℕ, x.Attracts (Decimal.value ⟨n, x.scale - d.toDigits.length⟩) ∧
      |Decimal.value ⟨n, x.scale - d.toDigits.length⟩ - x.value| ≤ |d.value - x.value| := by
  have hdigits := Decimal.digits_ne_zero (hd.pos hx)
  have hlength : 0 < d.toDigits.length := Nat.length_toDigits_pos
  by_cases hlead : x.scale - 1 ≤ d.leadExponent
  -- The decimal is on the grid itself.
  · obtain ⟨k, hk⟩ : ∃ k : ℕ, d.exponent = x.scale - d.toDigits.length + k := by
      refine ⟨(d.exponent - (x.scale - d.toDigits.length)).toNat, ?_⟩
      unfold Decimal.leadExponent at hlead
      omega
    have hvalue : Decimal.value ⟨d.digits * 10 ^ k, x.scale - d.toDigits.length⟩ = d.value := by
      rw [Decimal.value, Decimal.value, hk, zpow_add₀ (by norm_num), zpow_natCast]
      push_cast
      ring
    exact ⟨d.digits * 10 ^ k, hvalue ▸ hd, (congrArg (|· - x.value|) hvalue).le⟩
  -- Otherwise the power of ten below the magnitude lies between the two.
  · have hlt : d.value < 10 ^ (x.scale - 1) := by
      rw [← not_le, ← Decimal.le_leadExponent_iff hdigits]
      exact hlead
    have hle := zpow_scale_le_value hx
    obtain ⟨k, hk⟩ : ∃ k : ℕ, x.scale - 1 = x.scale - d.toDigits.length + k :=
      ⟨d.toDigits.length - 1, by omega⟩
    have hvalue : Decimal.value ⟨10 ^ k, x.scale - d.toDigits.length⟩ = 10 ^ (x.scale - 1) := by
      rw [Decimal.value, hk, zpow_add₀ (by norm_num), zpow_natCast]
      push_cast
      ring
    refine ⟨10 ^ k, ?_, ?_⟩
    · rw [hvalue]
      exact hd.between (attracts_value hx) hlt.le hle
    · rw [hvalue, abs_of_nonpos (by linarith), abs_of_neg (by linarith)]
      linarith

theorem abs_value_sub (x : Magnitude) (n : ℕ) (grid : ℤ) :
    |Decimal.value ⟨n, grid⟩ - x.value| =
      |(n : ℚ) - (x.onGrid grid).1 / (x.onGrid grid).2| * 10 ^ grid := by
  have hpos := Decimal.ten_zpow_pos grid
  rw [onGrid_div, ← abs_of_pos hpos, ← abs_mul, abs_of_pos hpos, sub_mul,
    div_mul_cancel₀ _ hpos.ne', Decimal.value]

/-- Of the points of a grid that round to the magnitude, the nearest is found. -/
theorem pointOn?_nearest (hx : x.mantissa ≠ 0) (hp : x.pointOn? grid = some d) {n : ℕ}
    (h : x.Attracts (Decimal.value ⟨n, grid⟩)) :
    |d.value - x.value| ≤ |Decimal.value ⟨n, grid⟩ - x.value| := by
  have hvalue := attracts_value hx
  have hbelow := x.value_below_le grid
  have habove := (x.lt_value_above grid).le
  simp only [pointOn?] at hp
  split at hp
  · cases hp
    rw [abs_value_sub, abs_value_sub]
    exact mul_le_mul_of_nonneg_right (roundHalfEven_nearest _ (x.onGrid_pos grid) n)
      (Decimal.ten_zpow_pos grid).le
  -- The point above does not round to the magnitude, nor does anything beyond it.
  · rename_i hno
    cases hp
    have hn : n ≤ x.below grid := by
      by_contra hlt
      have hattracts := hvalue.between h habove (value_le_value (Nat.not_le.mp hlt) grid)
      rw [← readsBack_iff] at hattracts
      exact Bool.false_ne_true (hno.symm.trans hattracts)
    have hle := value_le_value hn grid
    show |Decimal.value ⟨x.below grid, grid⟩ - x.value| ≤ _
    rw [abs_of_nonpos (sub_nonpos.mpr hbelow), abs_of_nonpos (sub_nonpos.mpr (hle.trans hbelow))]
    exact neg_le_neg (sub_le_sub_right hle _)
  -- Here the point below does not, nor does anything beneath it.
  · rename_i hno _
    cases hp
    have hn : x.below grid + 1 ≤ n := by
      by_contra hlt
      have hattracts := h.between hvalue (value_le_value (by omega) grid) hbelow
      rw [← readsBack_iff] at hattracts
      exact Bool.false_ne_true (hno.symm.trans hattracts)
    have hle := value_le_value hn grid
    show |Decimal.value ⟨x.below grid + 1, grid⟩ - x.value| ≤ _
    rw [abs_of_nonneg (sub_nonneg.mpr habove), abs_of_nonneg (sub_nonneg.mpr (habove.trans hle))]
    exact sub_le_sub_right hle _
  · cases hp

/-- A point next to the magnitude has at most as many digits as the grid is places below it. -/
theorem digits_le_pow (hx : x.mantissa ≠ 0) {n : ℕ}
    (hp : x.pointOn? (x.scale - (n + 1 : ℕ)) = some d) : d.digits ≤ 10 ^ (n + 1) := by
  have hbelow : x.below (x.scale - (n + 1 : ℕ)) < 10 ^ (n + 1) := by
    have hlt := (x.value_below_le (x.scale - (n + 1 : ℕ))).trans_lt (value_lt_zpow_scale hx)
    have hscale : (10 : ℚ) ^ x.scale = 10 ^ (n + 1) * 10 ^ (x.scale - (n + 1 : ℕ)) := by
      rw [← zpow_natCast, ← zpow_add₀ (by norm_num)]
      congr 1
      omega
    rw [hscale, Decimal.value, mul_lt_mul_iff_left₀ (Decimal.ten_zpow_pos _)] at hlt
    exact_mod_cast hlt
  obtain ⟨_, m, rfl, hm⟩ := pointOn?_eq_some hp
  show m ≤ 10 ^ (n + 1)
  omega

/-- The search finds the shortest decimal. -/
theorem isShortest_shortest (hx : x.mantissa ≠ 0) : x.IsShortest x.shortest := by
  obtain ⟨n, p, hp, hbefore, hshortest⟩ := exists_shortest_eq hx
  -- No coarser grid has a point, so no decimal with fewer digits rounds to the magnitude.
  have hfewest : ∀ other : Decimal, x.Attracts other.value → n + 1 ≤ other.toDigits.length := by
    intro other hother
    by_contra hlt
    have hlength : 0 < other.toDigits.length := Nat.length_toDigits_pos
    obtain ⟨m, hm, _⟩ := exists_point hx hother
    obtain ⟨k, hk⟩ := Nat.exists_eq_add_of_lt hlength
    rw [Nat.zero_add] at hk
    rw [hk] at hm
    exact pointOn?_ne_none_of_attracts hx hm (hbefore k (by omega))
  have hlength : x.shortest.toDigits.length ≤ n + 1 := by
    apply (Nat.length_toDigits_le_iff (by decide) (Nat.succ_pos n)).mpr
    have hle : x.shortest.digits ≤ 10 ^ (n + 1) := by
      rw [hshortest]
      exact p.strip_digits_le.trans (digits_le_pow hx hp)
    apply Nat.lt_of_le_of_ne hle
    -- The bound itself is a power of ten, which would have lost its zeros.
    intro heq
    apply shortest_mod_ten hx
    rw [heq, Nat.pow_succ, Nat.mul_mod_left]
  refine ⟨Decimal.readsAs_iff.mpr (attracts_shortest hx), fun other hother => ?_,
    fun other hother heq => ?_⟩
  · exact hlength.trans (hfewest other (Decimal.readsAs_iff.mp hother))
  rw [Decimal.readsAs_iff] at hother
  -- A decimal with as many digits is as near as a point of the grid on which the search ended.
  have hgrid : other.toDigits.length = n + 1 :=
    Nat.le_antisymm (heq.le.trans hlength) (hfewest other hother)
  obtain ⟨m, hm, hnearer⟩ := exists_point hx hother
  rw [hgrid] at hm hnearer
  rw [hshortest, Decimal.value_strip]
  exact (pointOn?_nearest hx hp hm).trans hnearer

end Magnitude

end RouteRules
