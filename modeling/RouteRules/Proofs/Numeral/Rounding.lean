import RouteRules.Proofs.Numeral.Interval

/-!
# Rounding to the nearest double

Rounding finds the magnitude whose interval a number lies in, and fails only where the number lies
beyond the intervals of all magnitudes.

## Main definitions

- `Magnitude.significand`: what is rounded to the mantissa.
- `Decimal.ReadsAs`: reading a decimal gives a magnitude.

## Main statements

- `roundHalfEven_nearest`: no natural number is nearer.
- `Magnitude.nearest?_eq_some_iff`: a number is read as the magnitude that it rounds to.
- `Decimal.readsAs_iff`: so is a decimal.
-/

namespace RouteRules

/-! ## Rounding to a natural number -/

/-- The quotient is rounded down below the half and up above it. At the half the result is even. -/
theorem roundHalfEven_spec (num den : ℕ) :
    (roundHalfEven num den = num / den ∧ 2 * (num % den) ≤ den ∨
      roundHalfEven num den = num / den + 1 ∧ den ≤ 2 * (num % den)) ∧
      (2 * (num % den) = den → roundHalfEven num den % 2 = 0) := by
  unfold roundHalfEven
  dsimp only
  split
  · exact ⟨.inl ⟨rfl, by omega⟩, fun h => by omega⟩
  · split
    · exact ⟨.inr ⟨rfl, by omega⟩, fun h => by omega⟩
    · omega

/-- The quotient is at most half away from the result, and halfway only from an even one. -/
theorem roundHalfEven_halves (num : ℕ) {den : ℕ} (hden : 0 < den) :
    (4 * (roundHalfEven num den : ℚ) < 4 * (num / den) + 2 ∨ roundHalfEven num den % 2 = 0 ∧
        4 * (roundHalfEven num den : ℚ) = 4 * (num / den) + 2) ∧
      (4 * ((num : ℚ) / den) < 4 * roundHalfEven num den + 2 ∨ roundHalfEven num den % 2 = 0 ∧
        4 * ((num : ℚ) / den) = 4 * roundHalfEven num den + 2) := by
  have hpos : (0 : ℚ) < den := by exact_mod_cast hden
  have hdiv : num / den * den + num % den = num := Nat.div_add_mod' num den
  have hmod : num % den < den := Nat.mod_lt _ hden
  have hnext : (num / den + 1) * den = num / den * den + den := Nat.succ_mul _ _
  obtain ⟨hround, heven⟩ := roundHalfEven_spec num den
  generalize roundHalfEven num den = r at hround heven ⊢
  -- Both comparisons are made after multiplication with the denominator.
  have hscaled : (4 * (r * den) < 4 * num + 2 * den ∨ r % 2 = 0 ∧
        4 * (r * den) = 4 * num + 2 * den) ∧
      (4 * num < 4 * (r * den) + 2 * den ∨ r % 2 = 0 ∧
        4 * num = 4 * (r * den) + 2 * den) := by
    rcases hround with ⟨hround, hhalf⟩ | ⟨hround, hhalf⟩
    all_goals
      rw [hround] at heven ⊢
      omega
  -- Casts are pushed out once, so that the rational goal is the scaled one over again.
  obtain ⟨q, hq⟩ : ∃ q : ℚ, (num : ℚ) / den = q := ⟨_, rfl⟩
  have hnum : (num : ℚ) = q * den := by rw [← hq, div_mul_cancel₀ _ hpos.ne']
  have hlt : ∀ a b : ℚ, ∀ m n : ℕ, m = a * den → n = b * den → (a < b ↔ m < n) := by
    intro a b m n hm hn
    rw [← mul_lt_mul_iff_left₀ hpos, ← hm, ← hn, Nat.cast_lt]
  have heq : ∀ a b : ℚ, ∀ m n : ℕ, m = a * den → n = b * den → (a = b ↔ m = n) := by
    intro a b m n hm hn
    rw [← mul_left_inj' hpos.ne', ← hm, ← hn, Nat.cast_inj]
  have hresult : ((4 * (r * den) : ℕ) : ℚ) = 4 * r * den := by push_cast; ring
  have hresult' : ((4 * (r * den) + 2 * den : ℕ) : ℚ) = (4 * r + 2) * den := by push_cast; ring
  have hquotient : ((4 * num : ℕ) : ℚ) = 4 * q * den := by push_cast; rw [hnum]; ring
  have hquotient' : ((4 * num + 2 * den : ℕ) : ℚ) = (4 * q + 2) * den := by
    push_cast; rw [hnum]; ring
  rw [hq, hlt _ _ _ _ hresult hquotient', heq _ _ _ _ hresult hquotient',
    hlt _ _ _ _ hquotient hresult', heq _ _ _ _ hquotient hresult']
  exact hscaled

/-- No number is nearer to the quotient. -/
theorem roundHalfEven_nearest (num : ℕ) {den : ℕ} (hden : 0 < den) (m : ℕ) :
    |(roundHalfEven num den : ℚ) - num / den| ≤ |(m : ℚ) - num / den| := by
  obtain ⟨hlow, hhigh⟩ := roundHalfEven_halves num hden
  have hlow := hlow.elim le_of_lt fun h => h.2.le
  have hhigh := hhigh.elim le_of_lt fun h => h.2.le
  -- Every other number is at least half away, on the one side or on the other.
  rcases Nat.lt_trichotomy m (roundHalfEven num den) with hlt | heq | hgt
  · have hle : (m : ℚ) + 1 ≤ roundHalfEven num den := by exact_mod_cast hlt
    rw [abs_of_nonpos (by linarith : (m : ℚ) - num / den ≤ 0), abs_le]
    exact ⟨by linarith, by linarith⟩
  · rw [heq]
  · have hle : (roundHalfEven num den : ℚ) + 1 ≤ m := by exact_mod_cast hgt
    rw [abs_of_nonneg (by linarith : 0 ≤ (m : ℚ) - num / den), abs_le]
    exact ⟨by linarith, by linarith⟩

namespace Magnitude

variable {x : Magnitude} {num den : ℕ} {a : ℚ}

/-! ## Significands -/

/-- The number in units of `2 ^ shift` least positive doubles. Rounded, it is the mantissa. -/
def significand (a : ℚ) (shift : ℕ) : ℚ := a * unitsInOne / 2 ^ shift

theorem significand_succ (a : ℚ) (shift : ℕ) :
    significand a (shift + 1) = significand a shift / 2 := by
  rw [significand, significand, pow_succ, div_div]

theorem significand_nonneg (ha : 0 ≤ a) (shift : ℕ) : 0 ≤ significand a shift := by
  unfold significand
  positivity

/-- A number is compared with the ends of the interval by its significand. -/
theorem attracts_iff : x.Attracts a ↔
    (((4 * x.mantissa - if x.narrowBelow then 1 else 2 : ℕ) : ℚ) < 4 * significand a x.shift ∨
      x.mantissa % 2 = 0 ∧
        4 * significand a x.shift = (4 * x.mantissa - if x.narrowBelow then 1 else 2 : ℕ)) ∧
    (4 * significand a x.shift < (4 * x.mantissa + 2 : ℕ) ∨
      x.mantissa % 2 = 0 ∧ 4 * significand a x.shift = (4 * x.mantissa + 2 : ℕ)) := by
  have hone : (0 : ℚ) < unitsInOne := by exact_mod_cast unitsInOne_pos
  -- The ends are multiples of a quarter of a unit, and so is the number, by four significands.
  have hquarter : (0 : ℚ) < 2 ^ x.shift / (4 * unitsInOne) := by positivity
  have ha : a = 4 * significand a x.shift * (2 ^ x.shift / (4 * unitsInOne)) := by
    unfold significand
    field_simp
  have hend : ∀ n : ℕ, ((n * Nat.pow 2 x.shift : ℕ) : ℚ) / (4 * unitsInOne) =
      n * (2 ^ x.shift / (4 * unitsInOne)) := by
    intro n
    rw [Nat.pow_eq]
    push_cast
    rw [mul_div_assoc]
  have hiff : x.Attracts a ↔ (x.low < a ∨ x.mantissa % 2 = 0 ∧ a = x.low) ∧
      (a < x.high ∨ x.mantissa % 2 = 0 ∧ a = x.high) :=
    ⟨fun h => ⟨h.low, h.high⟩, fun h => ⟨h.1, h.2⟩⟩
  rw [hiff, low, high, lowQuarters, highQuarters, hend, hend]
  generalize significand a x.shift = t at ha ⊢
  rw [ha, mul_lt_mul_iff_left₀ hquarter, mul_left_inj' hquarter.ne', mul_lt_mul_iff_left₀ hquarter,
    mul_left_inj' hquarter.ne']

/-- A magnitude with the rounded significand for a mantissa attracts the number. -/
theorem attracts_of_halves (ha : 0 ≤ a)
    (hlead : x.shift = 0 ∨ 2 ^ 52 ≤ significand a x.shift)
    (hlow : 4 * (x.mantissa : ℚ) < 4 * significand a x.shift + 2 ∨ x.mantissa % 2 = 0 ∧
      4 * (x.mantissa : ℚ) = 4 * significand a x.shift + 2)
    (hhigh : 4 * significand a x.shift < 4 * x.mantissa + 2 ∨ x.mantissa % 2 = 0 ∧
      4 * significand a x.shift = 4 * x.mantissa + 2) : x.Attracts a := by
  have hnonneg := significand_nonneg ha x.shift
  rw [attracts_iff]
  push_cast
  refine ⟨?_, hhigh⟩
  split
  -- Here the lower end is not where the significand would be rounded down.
  · rename_i hnarrow
    unfold narrowBelow at hnarrow
    simp only [Bool.and_eq_true, beq_iff_eq, bne_iff_ne] at hnarrow
    obtain ⟨hmantissa, hshift⟩ := hnarrow
    have hlead := hlead.resolve_left hshift
    left
    rw [hmantissa]
    norm_num
    linarith
  -- At zero the lower end is cut off, and nothing below it has to be compared.
  · rcases Nat.eq_zero_or_pos x.mantissa with hzero | hpos
    · rw [hzero]
      rcases hnonneg.lt_or_eq with h | h
      · exact .inl (by norm_num; exact h)
      · exact .inr ⟨rfl, by rw [← h]; norm_num⟩
    · have hsub : ((4 * x.mantissa - 2 : ℕ) : ℚ) = 4 * x.mantissa - 2 := by
        rw [Nat.cast_sub (by omega)]
        push_cast
        rfl
      rw [hsub]
      rcases hlow with h | ⟨heven, h⟩
      · exact .inl (by linarith)
      · exact .inr ⟨heven, by linarith⟩

/-- Zero attracts what is less than half of the least double. -/
theorem attracts_zero_of_lt (ha : 0 ≤ a) (h : 4 * significand a 0 < 2) : zero.Attracts a := by
  have hshift : zero.shift = 0 := rfl
  have hmantissa : (zero.mantissa : ℚ) = 0 := Nat.cast_zero
  have hnonneg := significand_nonneg ha 0
  apply attracts_of_halves ha (.inl hshift)
  · rw [hmantissa, hshift]
    exact .inl (by linarith)
  · rw [hmantissa, hshift]
    exact .inl (by linarith)

/-- Rounding up to one bit more than the mantissa holds takes the next larger shift. -/
theorem attracts_of_carry {shift : ℕ} (hx : x.mantissa = 2 ^ 52) (hshift : x.shift = shift + 1)
    (hlow : 2 ^ 55 ≤ 4 * significand a shift + 2)
    (hhigh : significand a shift < 2 ^ 53) : x.Attracts a := by
  -- The least mantissa of a shift, so the interval below it is half as long.
  have hnarrow : x.narrowBelow = true := by
    unfold narrowBelow
    rw [hx, hshift]
    rfl
  rw [attracts_iff, if_pos hnarrow, hx, hshift, significand_succ]
  norm_num
  constructor
  · rcases hlow.lt_or_eq with h | h
    · exact .inl (by linarith)
    · exact .inr (by linarith)
  · exact .inl (by linarith)

/-! ## The shift -/

theorem inUnits_pos (num : ℕ) (hden : 0 < den) (shift : ℕ) : 0 < (inUnits num den shift).2 :=
  Nat.mul_pos hden (Nat.pow_pos (by decide))

theorem inUnits_div (num : ℕ) (hden : 0 < den) (shift : ℕ) :
    ((inUnits num den shift).1 : ℚ) / (inUnits num den shift).2 =
      significand (num / den) shift := by
  have hne : (den : ℚ) ≠ 0 := by exact_mod_cast hden.ne'
  have hpos : ((inUnits num den shift).2 : ℚ) ≠ 0 := by
    exact_mod_cast (inUnits_pos num hden shift).ne'
  -- One of the two subtractions is cut off at zero, according to the shift.
  have hpow : (2 : ℚ) ^ (1074 - shift) * 2 ^ shift = 2 ^ (shift - 1074) * unitsInOne := by
    unfold unitsInOne
    generalize 1074 = k
    rw [Nat.pow_eq, Nat.cast_pow, Nat.cast_ofNat, ← pow_add, ← pow_add]
    congr 1
    omega
  rw [significand, div_mul_eq_mul_div, div_div, div_eq_div_iff hpos (by positivity)]
  simp only [inUnits, Nat.pow_eq]
  push_cast
  calc (num : ℚ) * 2 ^ (1074 - shift) * (den * 2 ^ shift)
      = num * den * (2 ^ (1074 - shift) * 2 ^ shift) := by ring
    _ = num * unitsInOne * (den * 2 ^ (shift - 1074)) := by rw [hpow]; ring

theorem significand_eq_div (num den shift : ℕ) :
    significand (num / den) shift = (num * unitsInOne : ℕ) / (den * 2 ^ shift : ℕ) := by
  rw [significand, div_mul_eq_mul_div, div_div]
  push_cast
  rfl

/-- The logarithms bound the significand from above … -/
theorem significand_lt (hden : 0 < den) {k shift : ℕ}
    (h : num.log2 + 1 + 1074 ≤ k + den.log2 + shift) :
    significand (num / den) shift < 2 ^ k := by
  have hpos : (0 : ℚ) < (den * 2 ^ shift : ℕ) := by
    exact_mod_cast Nat.mul_pos hden (Nat.two_pow_pos shift)
  have hlt : num * unitsInOne < 2 ^ k * (den * 2 ^ shift) := by
    unfold unitsInOne
    generalize 1074 = n at h ⊢
    calc num * 2 ^ n
        < 2 ^ (num.log2 + 1) * 2 ^ n :=
          Nat.mul_lt_mul_of_pos_right Nat.lt_log2_self (Nat.two_pow_pos n)
      _ = 2 ^ (num.log2 + 1 + n) := (Nat.pow_add ..).symm
      _ ≤ 2 ^ (k + den.log2 + shift) := Nat.pow_le_pow_right (by decide) h
      _ = 2 ^ k * (2 ^ den.log2 * 2 ^ shift) := by rw [Nat.pow_add, Nat.pow_add, Nat.mul_assoc]
      _ ≤ 2 ^ k * (den * 2 ^ shift) :=
          Nat.mul_le_mul_left _ (Nat.mul_le_mul_right _ (Nat.log2_self_le hden.ne'))
  rw [significand_eq_div, div_lt_iff₀ hpos]
  exact_mod_cast hlt

/-- … and from below. -/
theorem le_significand (hnum : num ≠ 0) (hden : 0 < den) {k shift : ℕ}
    (h : k + (den.log2 + 1) + shift ≤ num.log2 + 1074) :
    2 ^ k ≤ significand (num / den) shift := by
  have hpos : (0 : ℚ) < (den * 2 ^ shift : ℕ) := by
    exact_mod_cast Nat.mul_pos hden (Nat.two_pow_pos shift)
  have hle : 2 ^ k * (den * 2 ^ shift) ≤ num * unitsInOne := by
    unfold unitsInOne
    generalize 1074 = n at h ⊢
    calc 2 ^ k * (den * 2 ^ shift)
        ≤ 2 ^ k * (2 ^ (den.log2 + 1) * 2 ^ shift) :=
          Nat.mul_le_mul_left _ (Nat.mul_le_mul_right _ (Nat.le_of_lt Nat.lt_log2_self))
      _ = 2 ^ (k + (den.log2 + 1) + shift) := by
          rw [← Nat.mul_assoc, ← Nat.pow_add, ← Nat.pow_add]
      _ ≤ 2 ^ (num.log2 + n) := Nat.pow_le_pow_right (by decide) h
      _ = 2 ^ num.log2 * 2 ^ n := Nat.pow_add ..
      _ ≤ num * 2 ^ n := Nat.mul_le_mul_right _ (Nat.log2_self_le hnum)
  rw [significand_eq_div, le_div_iff₀ hpos]
  exact_mod_cast hle

/-- The significand fits its bits, and fills them unless the shift is the least. -/
theorem shiftFor_spec (hnum : num ≠ 0) (hden : 0 < den) :
    significand (num / den) (shiftFor num den) < 2 ^ 53 ∧
      (shiftFor num den = 0 ∨ 2 ^ 52 ≤ significand (num / den) (shiftFor num den)) := by
  -- Whether a shift is enough is tested on the quotient without its remainder.
  have hfloor : ∀ shift, (inUnits num den shift).1 / (inUnits num den shift).2 < Nat.pow 2 53 ↔
      significand (num / den) shift < 2 ^ 53 := by
    intro shift
    have hpos := inUnits_pos num hden shift
    have hpos' : (0 : ℚ) < (inUnits num den shift).2 := by exact_mod_cast hpos
    rw [Nat.div_lt_iff_lt_mul hpos, ← inUnits_div num hden, div_lt_iff₀ hpos', Nat.pow_eq]
    exact_mod_cast Iff.rfl
  unfold shiftFor
  dsimp only
  -- The guess is right, or by one too low.
  split
  · rename_i hfits
    rw [hfloor] at hfits
    refine ⟨hfits, ?_⟩
    rcases Nat.eq_zero_or_pos (num.log2 + 1074 - (den.log2 + 53)) with hzero | hpos
    · exact .inl hzero
    · exact .inr (le_significand hnum hden (by omega))
  · rename_i hlarge
    rw [hfloor, not_lt] at hlarge
    have hguess : significand (num / den) (num.log2 + 1074 - (den.log2 + 53)) < 2 ^ 54 :=
      significand_lt hden (by omega)
    rw [significand_succ]
    exact ⟨by linarith, .inr (by linarith)⟩

/-! ## The nearest magnitude -/

theorem ofScaled?_eq_some {m shift : ℕ} (h : ofScaled? m shift = some x) :
    x.mantissa = m ∧ x.shift = shift := by
  unfold ofScaled? at h
  split at h
  · cases h
    exact ⟨rfl, rfl⟩
  · cases h

theorem ofScaled?_ne_none {m shift : ℕ} (hm : m < 2 ^ 53) (hshift : shift ≤ 2045)
    (hnormal : shift = 0 ∨ 2 ^ 52 ≤ m) : ofScaled? m shift ≠ none := by
  rw [ofScaled?, dif_pos ⟨hm, hshift, hnormal⟩]
  exact Option.some_ne_none _

/-- Larger units go less often into a number. -/
theorem significand_anti (ha : 0 ≤ a) {s t : ℕ} (h : s ≤ t) :
    significand a t ≤ significand a s := by
  have hpow : (2 : ℚ) ^ s ≤ 2 ^ t := pow_le_pow_right₀ (by norm_num) h
  exact div_le_div_of_nonneg_left (by positivity) (by positivity) hpow

/-- What rounds to a magnitude is less than halfway beyond the largest one. -/
theorem Attracts.significand_lt (ha : 0 ≤ a) (h : x.Attracts a) :
    4 * significand a 2045 + 2 < 2 ^ 55 := by
  have hmantissa : x.mantissa < 2 ^ 53 := x.mantissa_lt
  obtain ⟨_, hhigh⟩ := attracts_iff.mp h
  have hle : 4 * significand a x.shift ≤ (4 * x.mantissa + 2 : ℕ) :=
    hhigh.elim le_of_lt fun h => h.2.le
  rcases Nat.lt_or_eq_of_le x.shift_le with hshift | hshift
  -- Under a smaller shift even the largest mantissa is less than half of the limit.
  · have hcap : ((4 * x.mantissa + 2 : ℕ) : ℚ) ≤ 2 ^ 55 := by
      have hle : 4 * x.mantissa + 2 ≤ 2 ^ 55 := by omega
      exact_mod_cast hle
    have hanti := significand_anti ha (show x.shift + 1 ≤ 2045 from hshift)
    rw [significand_succ a x.shift] at hanti
    linarith
  · rw [hshift] at hhigh hle
    -- The largest mantissa is odd, so that the end of its interval is not in it.
    rcases Nat.lt_or_ge (x.mantissa + 1) (2 ^ 53) with hlt | hge
    · have hcap : ((4 * x.mantissa + 2 : ℕ) : ℚ) + 2 < 2 ^ 55 := by
        have hlt : 4 * x.mantissa + 2 + 2 < 2 ^ 55 := by omega
        exact_mod_cast hlt
      linarith
    · have hend : 4 * x.mantissa + 2 = 2 ^ 55 - 2 := by omega
      have hlt := hhigh.resolve_right fun h => by omega
      rw [hend] at hlt
      norm_num at hlt
      linarith

/-- The quotient in units is rounded to a number at most half a unit away. -/
theorem rounded_halves (num : ℕ) (hden : 0 < den) (shift : ℕ) {m : ℕ}
    (h : roundHalfEven (inUnits num den shift).1 (inUnits num den shift).2 = m) :
    (4 * (m : ℚ) < 4 * significand (num / den) shift + 2 ∨ m % 2 = 0 ∧
        4 * (m : ℚ) = 4 * significand (num / den) shift + 2) ∧
      (4 * significand (num / den) shift < 4 * m + 2 ∨ m % 2 = 0 ∧
        4 * significand (num / den) shift = 4 * m + 2) := by
  have hhalves := roundHalfEven_halves (inUnits num den shift).1 (inUnits_pos num hden shift)
  rwa [h, inUnits_div num hden] at hhalves

/-- A significand that fits and fills its bits does so when it is rounded, except for a carry. -/
theorem rounded_bounds (num : ℕ) (hden : 0 < den) {shift m : ℕ}
    (hfits : significand (num / den) shift < 2 ^ 53)
    (hlead : shift = 0 ∨ 2 ^ 52 ≤ significand (num / den) shift)
    (h : roundHalfEven (inUnits num den shift).1 (inUnits num den shift).2 = m) :
    m ≤ 2 ^ 53 ∧ (shift = 0 ∨ 2 ^ 52 ≤ m) := by
  obtain ⟨hlow, hhigh⟩ := rounded_halves num hden shift h
  have hlow := hlow.elim le_of_lt fun h => h.2.le
  have hhigh := hhigh.elim le_of_lt fun h => h.2.le
  refine ⟨?_, hlead.imp_right fun hlead => ?_⟩
  · have hlt : (m : ℚ) < (2 ^ 53 + 1 : ℕ) := by
      push_cast
      linarith
    exact Nat.le_of_lt_succ (Nat.cast_lt.mp hlt)
  · have hlt : ((2 ^ 52 : ℕ) : ℚ) < (m + 1 : ℕ) := by
      push_cast
      linarith
    exact Nat.le_of_lt_succ (Nat.cast_lt.mp hlt)

/-- A carry starts at half a unit below. -/
theorem le_of_carry (num : ℕ) (hden : 0 < den) {shift : ℕ}
    (h : roundHalfEven (inUnits num den shift).1 (inUnits num den shift).2 = 2 ^ 53) :
    2 ^ 55 ≤ 4 * significand (num / den) shift + 2 := by
  obtain ⟨hlow, _⟩ := rounded_halves num hden shift h
  have hle := hlow.elim le_of_lt fun h => h.2.le
  norm_num at hle ⊢
  exact hle

/-- What is found attracts the number. -/
theorem attracts_of_nearest? (hden : 0 < den) (h : nearest? num den = some x) :
    x.Attracts (num / den) := by
  have hnonneg : (0 : ℚ) ≤ num / den := by positivity
  unfold nearest? at h
  split at h
  · rename_i hnum
    cases h
    have hzero : significand (num / den) 0 = 0 := by
      rw [hnum, significand, Nat.cast_zero, zero_div, zero_mul, zero_div]
    apply attracts_zero_of_lt hnonneg
    rw [hzero]
    norm_num
  · rename_i hnum
    obtain ⟨hfits, hlead⟩ := shiftFor_spec hnum hden
    dsimp only at h
    split at h
    -- The mantissa had to be carried over into the next shift, or it is the rounded significand.
    · rename_i hcarry
      obtain ⟨hmantissa, hshift⟩ := ofScaled?_eq_some h
      exact attracts_of_carry hmantissa hshift (le_of_carry num hden hcarry) hfits
    · obtain ⟨hmantissa, hshift⟩ := ofScaled?_eq_some h
      obtain ⟨hlow, hhigh⟩ := rounded_halves num hden _ hmantissa.symm
      rw [← hshift] at hlow hhigh hlead
      exact attracts_of_halves hnonneg hlead hlow hhigh

/-- Something is found for what rounds to a magnitude. -/
theorem nearest?_ne_none (hden : 0 < den) (h : x.Attracts (num / den)) :
    nearest? num den ≠ none := by
  have hnonneg : (0 : ℚ) ≤ num / den := by positivity
  have hlimit := h.significand_lt hnonneg
  unfold nearest?
  split
  · exact Option.some_ne_none _
  · rename_i hnum
    obtain ⟨hfits, hlead⟩ := shiftFor_spec hnum hden
    dsimp only
    generalize shiftFor num den = s at hfits hlead ⊢
    -- In both cases, a shift beyond the largest one would take the number beyond all intervals.
    split
    · rename_i hcarry
      have hlow := le_of_carry num hden hcarry
      apply ofScaled?_ne_none (by decide) _ (.inr le_rfl)
      by_contra hshift
      have hanti := significand_anti hnonneg (show 2045 ≤ s by omega)
      linarith
    · rename_i hcarry
      obtain ⟨hle, hnormal⟩ := rounded_bounds num hden hfits hlead rfl
      refine ofScaled?_ne_none (Nat.lt_of_le_of_ne hle hcarry) ?_ hnormal
      by_contra hshift
      have hanti := significand_anti hnonneg (show 2045 + 1 ≤ s by omega)
      have hlead := hlead.resolve_left (by omega)
      rw [significand_succ] at hanti
      linarith

/-- A number is read as the magnitude that it rounds to. -/
theorem nearest?_eq_some_iff (hden : 0 < den) :
    nearest? num den = some x ↔ x.Attracts (num / den) := by
  refine ⟨attracts_of_nearest? hden, fun h => ?_⟩
  obtain ⟨y, hy⟩ := Option.ne_none_iff_exists'.mp (nearest?_ne_none hden h)
  rw [hy, h.unique (attracts_of_nearest? hden hy)]

/-! ## Decimals -/

/-- The interval of zero holds everything far below the least double. -/
theorem attracts_zero (ha : 0 ≤ a) (h : a < 10 ^ (-400 : ℤ)) : zero.Attracts a := by
  have hpow : 4 * unitsInOne ≤ 10 ^ 400 := by
    unfold unitsInOne
    decide +kernel
  have hpow : (4 : ℚ) * unitsInOne ≤ 10 ^ (400 : ℤ) := by exact_mod_cast hpow
  have hlt : a * (4 * unitsInOne) < 1 :=
    calc a * (4 * unitsInOne)
        < 10 ^ (-400 : ℤ) * (4 * unitsInOne) := mul_lt_mul_of_pos_right h quarters_pos
      _ ≤ 10 ^ (-400 : ℤ) * 10 ^ (400 : ℤ) :=
          mul_le_mul_of_nonneg_left hpow (Decimal.ten_zpow_pos _).le
      _ = 1 := by rw [← zpow_add₀ (by norm_num), neg_add_cancel, zpow_zero]
  apply attracts_zero_of_lt ha
  rw [significand, pow_zero, div_one]
  linarith

/-- The interval of no magnitude reaches far above the largest double. -/
theorem Attracts.lt_pow (ha : 0 ≤ a) (h : x.Attracts a) : a < 10 ^ (400 : ℤ) := by
  have hpow : 2 ^ 55 * 2 ^ 2045 ≤ 10 ^ 400 * unitsInOne := by
    unfold unitsInOne
    decide +kernel
  have hpow : (2 : ℚ) ^ 55 * 2 ^ 2045 ≤ 10 ^ (400 : ℤ) * unitsInOne := by exact_mod_cast hpow
  have hone : (0 : ℚ) < unitsInOne := by exact_mod_cast unitsInOne_pos
  have hlimit := h.significand_lt ha
  have hnonneg := significand_nonneg ha 2045
  have hlt : a * unitsInOne < 2 ^ 55 * 2 ^ 2045 := by
    rw [← div_lt_iff₀ (by positivity)]
    show significand a 2045 < 2 ^ 55
    linarith
  exact lt_of_mul_lt_mul_right (hlt.trans_le hpow) hone.le

end Magnitude

theorem Decimal.value_eq_fraction (d : Decimal) :
    ((d.digits * Nat.pow 10 d.exponent.toNat : ℕ) : ℚ) / (Nat.pow 10 (-d.exponent).toNat : ℕ) =
      d.value := by
  have hexponent := ten_zpow_mul d.exponent
  rw [value, Nat.pow_eq, Nat.pow_eq, div_eq_iff (by positivity)]
  push_cast
  rw [← hexponent]
  ring

/-- A decimal is read as the magnitude that it rounds to. -/
theorem Binary64.ofDecimal_eq_finite_iff (negative : Bool) (d : Decimal) (x : Magnitude) :
    ofDecimal negative d.digits d.exponent = .finite negative x ↔ x.Attracts d.value := by
  have hnonneg : 0 ≤ d.value := mul_nonneg (Nat.cast_nonneg _) (Decimal.ten_zpow_pos _).le
  have hlead : d.leadExponent = d.exponent + (Nat.toDigits 10 d.digits).length - 1 := rfl
  unfold ofDecimal
  dsimp only
  split
  -- Zero, or so small that zero attracts it: nothing else does.
  · rename_i hsmall
    have hzero : Magnitude.zero.Attracts d.value := by
      apply Magnitude.attracts_zero hnonneg
      by_cases hdigits : d.digits = 0
      · rw [Decimal.value, hdigits, Nat.cast_zero, zero_mul]
        exact Decimal.ten_zpow_pos _
      · rw [← not_le, ← Decimal.le_leadExponent_iff hdigits]
        have hsmall := hsmall.resolve_left hdigits
        omega
    constructor
    · intro h
      cases h
      exact hzero
    · intro h
      rw [h.unique hzero]
  · rename_i hsmall
    have hdigits : d.digits ≠ 0 := fun h => hsmall (.inl h)
    split
    -- So large that no magnitude attracts it, and an infinite number is read.
    · rename_i hlarge
      have hpow : 10 ^ (400 : ℤ) ≤ d.value := by
        rw [← Decimal.le_leadExponent_iff hdigits]
        omega
      exact ⟨fun h => (by cases h), fun h => absurd (h.lt_pow hnonneg) (not_lt.mpr hpow)⟩
    -- In between, the fraction is rounded, and without a result the number is infinite again.
    · have hpos : 0 < Nat.pow 10 (-d.exponent).toNat := Nat.pow_pos (by decide)
      rw [← d.value_eq_fraction, ← Magnitude.nearest?_eq_some_iff hpos]
      split
      · rename_i hfound
        rw [hfound, finite.injEq, Option.some_inj]
        exact and_iff_right rfl
      · rename_i hnone
        rw [hnone]
        exact ⟨fun h => (by cases h), fun h => (by cases h)⟩

/-- Reading the decimal gives the magnitude, with either sign. -/
def Decimal.ReadsAs (d : Decimal) (x : Magnitude) : Prop :=
  ∀ negative, Binary64.ofDecimal negative d.digits d.exponent = .finite negative x

theorem Decimal.readsAs_iff {d : Decimal} {x : Magnitude} : d.ReadsAs x ↔ x.Attracts d.value :=
  ⟨fun h => (Binary64.ofDecimal_eq_finite_iff false d x).mp (h false),
    fun h negative => (Binary64.ofDecimal_eq_finite_iff negative d x).mpr h⟩

end RouteRules
