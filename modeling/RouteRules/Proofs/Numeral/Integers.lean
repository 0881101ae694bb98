import RouteRules.Proofs.Numeral.Canonical

/-!
# Literals of integers

Below `10 ^ 21` an integer is written with all its digits, and a double with the fewest digits that
identify it. So an integer and the double nearest to it have one literal only where no fewer digits
would do. That is so up to `2 ^ 53`, where every integer is a double and all its neighbours are.
Further up it depends on the integer, and from `10 ^ 21` on both are written as the double.

## Main statements

- `Magnitude.shortest_value_of_nearest?`: up to `2 ^ 53` the shortest decimal is the integer.
- `write_eq_toString_iff`: where a double is written as an integer.
- `literal_int_eq_iff`: where an integer and the nearest double have one literal.
-/

namespace RouteRules

theorem Decimal.value_whole (n : ℕ) : Decimal.value ⟨n, 0⟩ = n := by
  rw [value, zpow_zero, mul_one]

/-- A decimal with a fraction is far below the whole numbers that have more digits than it. -/
theorem Decimal.value_add_one_lt {d : Decimal} {n : ℕ} (hd : d.digits ≠ 0)
    (hexponent : d.exponent < 0) (hn : n ≠ 0)
    (hlength : d.toDigits.length < (Decimal.toDigits ⟨n, 0⟩).length) :
    d.value + 1 < n := by
  have hpos : 0 < d.toDigits.length := Nat.length_toDigits_pos
  obtain ⟨k, hk⟩ : ∃ k : ℕ, (Decimal.toDigits ⟨n, 0⟩).length = k + 2 :=
    ⟨(Decimal.toDigits ⟨n, 0⟩).length - 2, by omega⟩
  -- The whole number is at least a power of ten that is ten times the one above the decimal.
  have hlarge : (10 : ℚ) ^ ((k + 1 : ℕ) : ℤ) ≤ n := by
    rw [← Decimal.value_whole n, ← Decimal.le_leadExponent_iff hn]
    unfold Decimal.leadExponent
    dsimp only
    omega
  have hsmall : d.value < 10 ^ (k : ℤ) := by
    rw [← not_le, ← Decimal.le_leadExponent_iff hd]
    unfold Decimal.leadExponent
    omega
  have hone : (1 : ℚ) ≤ 10 ^ k := one_le_pow₀ (by norm_num)
  rw [zpow_natCast, pow_succ] at hlarge
  rw [zpow_natCast] at hsmall
  linarith

/-- Two whole numbers that are at most a half apart are the same. -/
theorem eq_of_abs_sub_le_half {m n : ℕ} (h : |(m : ℚ) - n| ≤ 1 / 2) : m = n := by
  have hint : |(m : ℤ) - n| < 1 := by
    have hrat : |(m : ℚ) - n| < 1 := h.trans_lt (by norm_num)
    exact_mod_cast hrat
  rw [Int.abs_lt_one_iff] at hint
  exact_mod_cast sub_eq_zero.mp hint

namespace Magnitude

variable {x : Magnitude} {a : ℚ} {n : ℕ}

/-! ## Whole numbers among the doubles -/

theorem shifted_lt (hlt : n < 2 ^ 53) : n * 2 ^ (52 - n.log2) < 2 ^ 53 := by
  by_cases hn : n = 0
  · rw [hn]
    decide
  have hlog : n.log2 < 53 := (Nat.log2_lt hn).mpr hlt
  calc n * 2 ^ (52 - n.log2)
      < 2 ^ (n.log2 + 1) * 2 ^ (52 - n.log2) :=
        Nat.mul_lt_mul_of_pos_right Nat.lt_log2_self (Nat.two_pow_pos _)
    _ = 2 ^ 53 := by rw [← Nat.pow_add]; congr 1; omega

theorem le_shifted (hn : n ≠ 0) (hlt : n < 2 ^ 53) : 2 ^ 52 ≤ n * 2 ^ (52 - n.log2) := by
  have hlog : n.log2 < 53 := (Nat.log2_lt hn).mpr hlt
  calc 2 ^ 52
      = 2 ^ n.log2 * 2 ^ (52 - n.log2) := by rw [← Nat.pow_add]; congr 1; omega
    _ ≤ n * 2 ^ (52 - n.log2) := Nat.mul_le_mul_right _ (Nat.log2_self_le hn)

/-- A whole number below `2 ^ 53` as a double, its top bit moved to the top of the mantissa. -/
def ofWhole (n : ℕ) (hn : n ≠ 0) (hlt : n < 2 ^ 53) : Magnitude where
  mantissa := n * 2 ^ (52 - n.log2)
  shift := n.log2 + 1022
  mantissa_lt := shifted_lt hlt
  shift_le := by
    have hlog := (Nat.log2_lt hn).mpr hlt
    omega
  normal := .inr (le_shifted hn hlt)

theorem mantissa_ofWhole_ne (hn : n ≠ 0) (hlt : n < 2 ^ 53) : (ofWhole n hn hlt).mantissa ≠ 0 :=
  Nat.mul_ne_zero hn (Nat.two_pow_pos _).ne'

theorem shift_ofWhole_le (hn : n ≠ 0) (hlt : n < 2 ^ 53) : (ofWhole n hn hlt).shift ≤ 1074 :=
  Nat.add_le_add_right (Nat.le_of_lt_succ ((Nat.log2_lt hn).mpr hlt)) 1022

theorem value_ofWhole (hn : n ≠ 0) (hlt : n < 2 ^ 53) : (ofWhole n hn hlt).value = n := by
  have hunits : (ofWhole n hn hlt).units = n * unitsInOne := by
    have hlog : n.log2 < 53 := (Nat.log2_lt hn).mpr hlt
    have hsum : 52 - n.log2 + (n.log2 + 1022) = 1074 := by omega
    unfold unitsInOne
    rw [← hsum]
    exact (Nat.mul_assoc ..).trans (congrArg (n * ·) (Nat.pow_add ..).symm)
  have hone : (unitsInOne : ℚ) ≠ 0 := by exact_mod_cast unitsInOne_pos.ne'
  rw [value, hunits, Nat.cast_mul, mul_div_cancel_right₀ _ hone]

theorem exists_nearest?_of_lt (hlt : n < 2 ^ 53) : ∃ x, nearest? n 1 = some x := by
  by_cases hn : n = 0
  · exact ⟨zero, if_pos hn⟩
  · refine ⟨ofWhole n hn hlt, (nearest?_eq_some_iff Nat.one_pos).mpr ?_⟩
    rw [Nat.cast_one, div_one, ← value_ofWhole hn hlt]
    exact attracts_value (mantissa_ofWhole_ne hn hlt)

theorem pow_shift_le_unitsInOne (hshift : x.shift ≤ 1074) : Nat.pow 2 x.shift ≤ unitsInOne := by
  unfold unitsInOne
  generalize 1074 = k at hshift ⊢
  exact Nat.pow_le_pow_right (by decide) hshift

/-- Where doubles are at most one apart, the interval of a double ends a half above it at most. -/
theorem high_le_value_add (hshift : x.shift ≤ 1074) : x.high ≤ x.value + 1 / 2 := by
  have hpow := pow_shift_le_unitsInOne hshift
  -- The end is half a unit above, and a unit is no more than one.
  have hquarters : x.highQuarters ≤ 4 * x.units + 2 * unitsInOne := by
    calc x.highQuarters
        = 4 * x.units + 2 * Nat.pow 2 x.shift := by unfold highQuarters units; ring
      _ ≤ 4 * x.units + 2 * unitsInOne := by omega
  have hle : (x.highQuarters : ℚ) ≤ 4 * x.units + 2 * unitsInOne := by exact_mod_cast hquarters
  have hone : (0 : ℚ) < unitsInOne := by exact_mod_cast unitsInOne_pos
  rw [high, value, div_add_div _ _ hone.ne' (by norm_num), div_le_div_iff₀ (by positivity)
    (by positivity)]
  nlinarith

/-- Where doubles are at most one apart, the interval of a double begins a half below it at
most. -/
theorem value_sub_le_low (hshift : x.shift ≤ 1074) : x.value - 1 / 2 ≤ x.low := by
  have hpow := pow_shift_le_unitsInOne hshift
  -- The lower end is half a unit below, or only a quarter under the least mantissa.
  have hmantissa : 4 * x.mantissa ≤ (4 * x.mantissa - if x.narrowBelow then 1 else 2) + 2 := by
    split <;> omega
  have hquarters : 4 * x.units ≤ x.lowQuarters + 2 * unitsInOne := by
    calc 4 * x.units
        = 4 * x.mantissa * Nat.pow 2 x.shift := by unfold units; ring
      _ ≤ ((4 * x.mantissa - if x.narrowBelow then 1 else 2) + 2) * Nat.pow 2 x.shift :=
          Nat.mul_le_mul_right _ hmantissa
      _ = x.lowQuarters + 2 * Nat.pow 2 x.shift := by unfold lowQuarters; ring
      _ ≤ x.lowQuarters + 2 * unitsInOne := by omega
  have hle : (4 * x.units : ℚ) ≤ x.lowQuarters + 2 * unitsInOne := by exact_mod_cast hquarters
  have hone : (0 : ℚ) < unitsInOne := by exact_mod_cast unitsInOne_pos
  rw [low, value, div_sub_div _ _ hone.ne' (by norm_num), div_le_div_iff₀ (by positivity)
    (by positivity)]
  nlinarith

/-- Where doubles are at most one apart, nothing rounds to one from further away than a half. -/
theorem abs_sub_value_le (hshift : x.shift ≤ 1074) (h : x.Attracts a) :
    |a - x.value| ≤ 1 / 2 := by
  have habove : a ≤ x.high := h.high.elim le_of_lt fun h => h.2.le
  have hbelow : x.low ≤ a := h.low.elim le_of_lt fun h => h.2.ge
  have hhigh := high_le_value_add hshift
  have hlow := value_sub_le_low hshift
  rw [abs_le]
  exact ⟨by linarith, by linarith⟩

/-- Where doubles are at most one apart, the shortest decimal of a whole number is the number. -/
theorem shortest_value_of_whole (hx : x.mantissa ≠ 0) (hshift : x.shift ≤ 1074)
    (hn : x.value = n) : x.shortest.value = n := by
  -- The number itself is a decimal that is read as the double, so the shortest is no longer than
  -- it.
  have hself : Decimal.ReadsAs ⟨n, 0⟩ x := by
    rw [Decimal.readsAs_iff, Decimal.value_whole, ← hn]
    exact attracts_value hx
  have hnear := abs_sub_value_le hshift (attracts_shortest hx)
  obtain ⟨_, hlength, hnearest⟩ := isShortest_shortest hx
  rw [hn] at hnear
  rcases Nat.lt_or_eq_of_le (hlength _ hself) with hlt | heq
  · rcases le_or_gt 0 x.shortest.exponent with hexponent | hexponent
    -- Fewer digits and no fraction: two whole numbers at most a half apart.
    · obtain ⟨k, hk⟩ := Int.eq_ofNat_of_zero_le hexponent
      rw [Decimal.value_eq_mul hk] at hnear ⊢
      exact congrArg Nat.cast (eq_of_abs_sub_le_half hnear)
    -- With a fraction, fewer digits would leave the decimal far below the number.
    · have hn0 : n ≠ 0 := by
        rintro rfl
        exact (value_pos hx).ne' (hn.trans Nat.cast_zero)
      have hfar := Decimal.value_add_one_lt (shortest_digits_ne_zero hx) hexponent hn0 hlt
      have hbelow := (abs_le.mp hnear).1
      linarith
  -- As many digits: no such decimal is nearer than the number itself, which is no distance away.
  · have hle := hnearest _ hself heq.symm
    rw [Decimal.value_whole, hn, sub_self, abs_zero] at hle
    exact sub_eq_zero.mp (abs_nonpos_iff.mp hle)

/-- Up to `2 ^ 53` the shortest decimal of the nearest double is the number itself. -/
theorem shortest_value_of_nearest? (hn : n ≠ 0) (hle : n ≤ 2 ^ 53) (h : nearest? n 1 = some x) :
    x.mantissa ≠ 0 ∧ x.shortest.value = n := by
  rcases Nat.lt_or_eq_of_le hle with hlt | rfl
  · have hx := (nearest?_eq_some_iff Nat.one_pos).mp h
    have hmantissa := mantissa_ofWhole_ne hn hlt
    rw [Nat.cast_one, div_one, ← value_ofWhole hn hlt] at hx
    rw [hx.unique (attracts_value hmantissa)]
    exact ⟨hmantissa,
      shortest_value_of_whole hmantissa (shift_ofWhole_le hn hlt) (value_ofWhole hn hlt)⟩
  -- The last one has a neighbour that is two apart.
  · have hlast : (nearest? (2 ^ 53) 1).map (fun y => (y.mantissa, y.shortest)) =
        some (2 ^ 52, ⟨2 ^ 53, 0⟩) := by decide +kernel
    rw [h, Option.map_some, Option.some_inj, Prod.mk.injEq] at hlast
    rw [hlast.1, hlast.2, Decimal.value_whole]
    exact ⟨by decide, rfl⟩

end Magnitude

/-! ## Integers as they are written -/

theorem toList_toString (n : ℤ) : (toString n).toList =
    if n < 0 then '-' :: Nat.toDigits 10 n.natAbs else Nat.toDigits 10 n.natAbs := by
  have hrepr : ∀ m : ℕ, m.repr.toList = Nat.toDigits 10 m := fun m => String.toList_ofList
  show n.repr.toList = _
  rw [Int.repr_eq_if]
  split
  -- The absolute value is the number or its negative, by the sign.
  · rename_i hn
    have habs : n.toNat = n.natAbs := by omega
    rw [if_neg (by omega), hrepr, habs]
  · rename_i hn
    have habs : (-n).toNat = n.natAbs := by omega
    rw [if_pos (by omega), String.toList_append, hrepr, habs]
    rfl

namespace Numeral

theorem magnitude?_toDigits (n : ℕ) : magnitude? (Nat.toDigits 10 n) = some (n : ℚ) := by
  have hnil : AreDigits [] := fun _ hc => absurd hc List.not_mem_nil
  have hpointed := magnitude?_pointed Nat.toDigits_ne_nil (areDigits_toDigits n) hnil
  rwa [pointed, List.append_nil, pointedValue, List.append_nil, digitsValue_toDigits,
    List.length_nil, pow_zero, div_one] at hpointed

/-- All digits of an integer say the integer. -/
theorem value?_toString (n : ℤ) : value? (toString n) = some (n : ℚ) := by
  have hdigits := magnitude?_toDigits n.natAbs
  rw [value?, toList_toString]
  by_cases hn : n < 0
  · have habs : (n.natAbs : ℚ) = -n := by rw [Nat.cast_natAbs, abs_of_neg hn, Int.cast_neg]
    rw [habs] at hdigits
    rw [if_pos hn]
    simp only [hdigits]
    exact congrArg some (neg_neg _)
  · have habs : (n.natAbs : ℚ) = n := by rw [Nat.cast_natAbs, abs_of_nonneg (not_lt.mp hn)]
    rw [habs] at hdigits
    rw [if_neg hn]
    split
    -- Digits do not begin with a sign.
    · rename_i heq
      have hsign := areDigits_toDigits n.natAbs '-' (heq ▸ List.mem_cons_self ..)
      cases hsign
    · exact hdigits

end Numeral

/-- A whole number below `10 ^ 21` is in the plain range. -/
theorem Magnitude.inPlainRange_of_whole {x : Magnitude} (hx : x.mantissa ≠ 0) {n : ℕ}
    (hn : n < 10 ^ 21) (h : x.shortest.value = n) : x.InPlainRange := by
  have hdigits := shortest_digits_ne_zero hx
  have hpos := (attracts_shortest hx).pos hx
  rw [h, Nat.cast_pos] at hpos
  rw [← leadExponent_iff_inPlainRange hx, ← not_le, Decimal.le_leadExponent_iff hdigits,
    Decimal.le_leadExponent_iff hdigits, h, not_le]
  -- A whole number above zero is at least one.
  constructor
  · have hone : (1 : ℚ) ≤ n := by exact_mod_cast hpos
    exact le_trans (by norm_num) hone
  · exact_mod_cast hn

/-- A double is written as an integer below `10 ^ 21` exactly if its literal says this integer. -/
theorem write_eq_toString_iff {n : ℤ} (hn : n.natAbs < 10 ^ 21) (x : Magnitude) :
    literalNumber.write (.finite (decide (n < 0)) x) = toString n ↔
      x.writtenValue (decide (n < 0)) = n := by
  constructor
  · intro h
    have hvalue := value?_literalNumber (decide (n < 0)) x
    rw [h, Numeral.value?_toString, Option.some_inj] at hvalue
    exact hvalue.symm
  · intro h
    unfold Magnitude.writtenValue at h
    split at h
    · rename_i hx
      have hzero : n = 0 := by exact_mod_cast h.symm
      rw [write_zero _ hx, hzero]
      rfl
    -- The double has the sign of the integer, and no digit of it is left out.
    · rename_i hx
      have hvalue : x.shortest.value = n.natAbs := by
        rw [Nat.cast_natAbs]
        split at h
        · rename_i hneg
          rw [abs_of_neg (of_decide_eq_true hneg), Int.cast_neg, ← h, neg_neg]
        · rename_i hneg
          rw [abs_of_nonneg (by simpa using hneg), h]
      have hrange := Magnitude.inPlainRange_of_whole hx hn hvalue
      rw [← String.toList_inj, toList_write _ hx, toList_toString,
        decimalText_of_whole hx hrange hvalue]
      simp only [decide_eq_true_eq]

/-- The nearest double of an integer up to `2 ^ 53` says the integer. -/
theorem Magnitude.writtenValue_of_nearest? {n : ℤ} (hn : n.natAbs ≤ 2 ^ 53) {x : Magnitude}
    (h : nearest? n.natAbs 1 = some x) : x.writtenValue (decide (n < 0)) = n := by
  by_cases hzero : n = 0
  · subst hzero
    cases h
    exact if_pos rfl
  -- The shortest decimal says the absolute value, and the sign is that of the integer.
  · obtain ⟨hx, hvalue⟩ := shortest_value_of_nearest? (Int.natAbs_ne_zero.mpr hzero) hn h
    rw [writtenValue, if_neg hx, hvalue, Nat.cast_natAbs]
    simp only [decide_eq_true_eq]
    split
    · rename_i hneg
      rw [abs_of_neg hneg, Int.cast_neg, neg_neg]
    · rename_i hneg
      rw [abs_of_nonneg (not_lt.mp hneg)]

/-! ## Integers and doubles -/

/-- Where an integer has a nearest double, the two have one literal exactly if the literal of the
double says the integer, or the integer has more than 21 digits. Up to `2 ^ 53` it says so. -/
theorem literal_int_eq_iff {n : ℤ} {x : Binary64} (h : Binary64.ofInt? n = some x) :
    ∃ m : Magnitude, x = .finite (decide (n < 0)) m ∧ m.Attracts n.natAbs ∧
      ((Value.int n).literal = (Value.float x).literal ↔
        (n.natAbs < 10 ^ 21 → m.writtenValue (decide (n < 0)) = n)) ∧
      (n.natAbs ≤ 2 ^ 53 → (Value.int n).literal = (Value.float x).literal) := by
  obtain ⟨m, hm, rfl⟩ := Option.map_eq_some_iff.mp h
  have hattracts := (Magnitude.nearest?_eq_some_iff Nat.one_pos).mp hm
  rw [Nat.cast_one, div_one] at hattracts
  -- With up to 21 digits the integer is written by its digits, and two texts are compared.
  have hiff : (Value.int n).literal = (Value.float (.finite (decide (n < 0)) m)).literal ↔
      (n.natAbs < 10 ^ 21 → m.writtenValue (decide (n < 0)) = n) := by
    show intLiteral n = .ok (literalNumber.write _) ↔ _
    unfold intLiteral
    split
    · rename_i hn
      rw [Except.ok.injEq, eq_comm, write_eq_toString_iff hn]
      exact ⟨fun h _ => h, fun h => h hn⟩
    -- From here on, integers are written as doubles.
    · rename_i hn
      rw [h]
      exact iff_of_true rfl fun hlt => absurd hlt hn
  exact ⟨m, rfl, hattracts, hiff, fun hn => hiff.mpr fun _ => m.writtenValue_of_nearest? hn hm⟩

/-- From `2 ^ 53` on the literals can differ: the integer is no double, and the nearest one is
written as itself. -/
theorem literal_int_ne_double : ∃ x, Binary64.ofInt? 9007199254740993 = some x ∧
    (Value.int 9007199254740993).literal = .ok "9007199254740993" ∧
    (Value.float x).literal = .ok "9007199254740992" := by
  obtain ⟨x, hx⟩ := Option.isSome_iff_exists.mp
    (show (Binary64.ofInt? 9007199254740993).isSome = true by decide +kernel)
  have hfloat : (Binary64.ofInt? 9007199254740993).map (fun x => (Value.float x).literal) =
      some (.ok "9007199254740992") := by decide +kernel
  rw [hx, Option.map_some, Option.some_inj] at hfloat
  exact ⟨x, hx, by decide +kernel, hfloat⟩

/-- The double nearest to `-10 ^ 20`. -/
def minusHundredQuintillion : Magnitude := (Magnitude.nearest? (10 ^ 20) 1).getD .zero

/-- Where few digits are enough, they are the same further up too. -/
theorem literal_int_eq_minusHundredQuintillion :
    Binary64.ofInt? (-100000000000000000000) = some (.finite true minusHundredQuintillion) ∧
      (Value.int (-100000000000000000000)).literal =
        (Value.float (.finite true minusHundredQuintillion)).literal := by
  have hdouble : Binary64.ofInt? (-100000000000000000000) =
      some (.finite true minusHundredQuintillion) := by decide +kernel
  obtain ⟨m, hm, -, hiff, -⟩ := literal_int_eq_iff hdouble
  have heq : m = minusHundredQuintillion := (Binary64.finite.inj hm).2.symm
  have hmantissa : minusHundredQuintillion.mantissa ≠ 0 := by decide +kernel
  have hshortest : minusHundredQuintillion.shortest = ⟨1, 20⟩ := by decide +kernel
  refine ⟨hdouble, hiff.mpr fun _ => ?_⟩
  rw [heq, Magnitude.writtenValue, if_neg hmantissa, hshortest, Decimal.value]
  norm_num

end RouteRules
