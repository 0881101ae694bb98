import RouteRules.Value.Key

/-!
# What keys denote

Two keys are the same if they denote the same thing: null, a number, one of the two infinities, or a
text. A number is counted in least positive doubles, of which every finite double and every integer
has a whole number, so an integer and a double of one value denote one number. The undefined number
denotes nothing, and so it is not even the same as itself.

## Main definitions

- `Magnitude.units`: the value of a magnitude in least positive doubles.
- `Scalar.denotation?`: what a scalar denotes as a key.

## Main statements

- `Magnitude.eq_of_units_eq`: a value has one magnitude only.
- `Scalar.same_iff`: scalars are the same if they denote the same thing.
- `Key.beq_comm`, `Key.beq_congr`: so keys that are the same are the same as all others.
-/

namespace RouteRules

/-! ## Magnitudes -/

namespace Magnitude

/-- The value in least positive doubles. -/
def units (x : Magnitude) : Nat := x.mantissa * Nat.pow 2 x.shift

/-- A larger value has no smaller shift. -/
theorem shift_le_of_units_le {x y : Magnitude} (h : x.units ≤ y.units) : x.shift ≤ y.shift := by
  apply Nat.le_of_not_lt
  intro hlt
  -- The mantissa of `x` uses its top bit, so that of `y` would need one more.
  have hnormal : Nat.pow 2 52 ≤ x.mantissa := x.normal.resolve_left (by omega)
  have hle : Nat.pow 2 53 * Nat.pow 2 y.shift ≤ x.units := by
    calc Nat.pow 2 53 * Nat.pow 2 y.shift
        = Nat.pow 2 52 * Nat.pow 2 (y.shift + 1) := by
          simp only [Nat.pow_eq, ← Nat.pow_add]
          congr 1
          omega
      _ ≤ x.mantissa * Nat.pow 2 x.shift :=
          Nat.mul_le_mul hnormal (Nat.pow_le_pow_right (by decide) hlt)
  have hpos : 0 < Nat.pow 2 y.shift := Nat.pow_pos (by decide)
  have hgt := Nat.mul_lt_mul_of_pos_right y.mantissa_lt hpos
  exact absurd hgt (Nat.not_lt.mpr (Nat.le_trans hle h))

/-- A value has one magnitude only. -/
theorem eq_of_units_eq {x y : Magnitude} (h : x.units = y.units) : x = y := by
  have hshift := Nat.le_antisymm (shift_le_of_units_le (Nat.le_of_eq h))
    (shift_le_of_units_le (Nat.le_of_eq h.symm))
  have hpos : 0 < Nat.pow 2 y.shift := Nat.pow_pos (by decide)
  have hmantissa : x.mantissa = y.mantissa := by
    unfold units at h
    rw [hshift] at h
    exact Nat.eq_of_mul_eq_mul_right hpos h
  cases x
  cases y
  cases hshift
  cases hmantissa
  rfl

theorem units_eq_zero_iff {x : Magnitude} : x.units = 0 ↔ x.mantissa = 0 := by
  have hpos : Nat.pow 2 x.shift ≠ 0 := Nat.ne_of_gt (Nat.pow_pos (by decide))
  unfold units
  rw [Nat.mul_eq_zero]
  exact or_iff_left hpos

end Magnitude

/-- The number of least positive doubles in one. -/
@[irreducible] def unitsInOne : Nat := Nat.pow 2 1074

theorem unitsInOne_pos : 0 < unitsInOne := by
  unfold unitsInOne
  apply Nat.pow_pos
  decide

/-- A fraction of powers of two can be compared after both sides have been scaled up. -/
theorem mul_pow_sub_eq_iff (m a k s : Nat) :
    m * Nat.pow 2 (k - s) = a * Nat.pow 2 (s - k) ↔ m * Nat.pow 2 k = a * Nat.pow 2 s := by
  have hpos : ∀ i, 0 < Nat.pow 2 i := fun i => Nat.pow_pos (by decide)
  -- One of the two differences is zero, and the other is what one side has to be scaled by.
  rcases Nat.le_total s k with h | h
  · have hk : Nat.pow 2 k = Nat.pow 2 (k - s) * Nat.pow 2 s := by
      simp only [Nat.pow_eq, ← Nat.pow_add, Nat.sub_add_cancel h]
    rw [Nat.sub_eq_zero_of_le h, hk, ← Nat.mul_assoc, Nat.mul_right_cancel_iff (hpos s)]
    simp
  · have hs : Nat.pow 2 s = Nat.pow 2 (s - k) * Nat.pow 2 k := by
      simp only [Nat.pow_eq, ← Nat.pow_add, Nat.sub_add_cancel h]
    rw [Nat.sub_eq_zero_of_le h, hs, ← Nat.mul_assoc, Nat.mul_right_cancel_iff (hpos k)]
    simp

theorem Magnitude.mul_den_eq_num_iff (x : Magnitude) (m : Nat) :
    m * x.den = x.num ↔ m * unitsInOne = x.units := by
  unfold den num unitsInOne units
  generalize 1074 = k
  exact mul_pow_sub_eq_iff m x.mantissa k x.shift

/-! ## Signed values -/

/-- A number of units with a sign; zero has none. -/
def signed (negative : Bool) (units : Nat) : Int := if negative then -units else units

/-- An integer is compared with a signed value by its absolute value and its sign. -/
theorem natAbs_mul_eq_iff (n : Int) {u : Nat} (hu : 0 < u) (negative : Bool) (m : Nat) :
    n.natAbs * u = m ∧ (n = 0 ∨ decide (n < 0) = negative) ↔ n * u = signed negative m := by
  have hu : 0 < (u : Int) := by omega
  -- Multiplying by the positive number of units keeps the sign and tells zero from the rest.
  have hzero : n = 0 ↔ n * u = 0 := by
    rw [Int.mul_eq_zero]
    omega
  have hneg : n < 0 ↔ n * u < 0 :=
    ⟨fun h => Int.mul_neg_of_neg_of_pos h hu, fun h => Int.neg_of_mul_neg_left h hu⟩
  have habs : n.natAbs * u = (n * u).natAbs := by
    rw [Int.natAbs_mul, Int.natAbs_natCast]
  unfold signed
  cases negative
  · rw [decide_eq_false_iff_not, if_neg Bool.false_ne_true, habs, hzero, hneg]
    generalize n * (u : Int) = z
    omega
  · rw [decide_eq_true_eq, if_pos rfl, habs, hzero, hneg]
    generalize n * (u : Int) = z
    omega

theorem signed_eq_signed_iff {s t : Bool} {m n : Nat} :
    signed s m = signed t n ↔ m = n ∧ (s = t ∨ m = 0) := by
  unfold signed
  cases s <;> cases t <;> simp <;> omega

/-! ## What scalars denote -/

/-- What a key stands for. -/
inductive Denotation where
  | null
  /-- A number, in least positive doubles. -/
  | number (units : Int)
  | infinite (negative : Bool)
  | text (s : String)
deriving DecidableEq

/-- What a double denotes. The undefined number denotes nothing. -/
def Binary64.denotation? : Binary64 → Option Denotation
  | finite negative x => some (.number (signed negative x.units))
  | infinite negative => some (.infinite negative)
  | undefined => none

/-- What a scalar denotes as a key. -/
def Scalar.denotation? : Scalar → Option Denotation
  | null => some .null
  | bool b => some (.number ((if b then 1 else 0) * unitsInOne))
  | int n => some (.number (n * unitsInOne))
  | float x => x.denotation?
  | text s => some (.text s)

namespace Binary64

theorem sameAsInt_iff (x : Binary64) (n : Int) :
    x.sameAsInt n = true ↔ x.denotation? = some (.number (n * unitsInOne)) := by
  cases x with
  | finite negative x =>
    rw [denotation?, Option.some_inj, Denotation.number.injEq,
      eq_comm (a := signed negative x.units), ← natAbs_mul_eq_iff n unitsInOne_pos,
      ← x.mul_den_eq_num_iff]
    simp only [sameAsInt, Bool.and_eq_true, Bool.or_eq_true, beq_iff_eq]
  | infinite negative => simp [sameAsInt, denotation?]
  | undefined => simp [sameAsInt, denotation?]

theorem same_iff (x y : Binary64) :
    x.same y = true ↔ ∃ d, x.denotation? = some d ∧ y.denotation? = some d := by
  cases x with
  | finite s x =>
    cases y with
    | finite t y =>
      -- Two finite doubles: their units are equal if they are, and the sign of zero does not count.
      have hunits : x.units = y.units ↔ x = y := ⟨Magnitude.eq_of_units_eq, fun h => h ▸ rfl⟩
      have hsigned := signed_eq_signed_iff (s := s) (t := t) (m := x.units) (n := y.units)
      rw [hunits, Magnitude.units_eq_zero_iff] at hsigned
      simp only [same, Bool.and_eq_true, Bool.or_eq_true, beq_iff_eq]
      rw [← hsigned]
      simp [denotation?, eq_comm]
    | infinite _ | undefined => simp [same, denotation?]
  | infinite s =>
    cases y with
    | infinite t =>
      simp only [same, denotation?, beq_iff_eq, Option.some_inj, exists_eq_left',
        Denotation.infinite.injEq]
      exact eq_comm
    | finite _ _ | undefined => simp [same, denotation?]
  | undefined => simp [same, denotation?]

end Binary64

namespace Scalar

theorem denotation?_of_whole {s : Scalar} {n : Int} (h : s.whole? = some n) :
    s.denotation? = some (.number (n * unitsInOne)) := by
  cases s with
  | bool _ | int _ =>
    cases h
    rfl
  | null | float _ | text _ => cases h

/-- Scalars are the same if they denote the same thing. -/
theorem same_iff (s t : Scalar) :
    s.same t = true ↔ ∃ d, s.denotation? = some d ∧ t.denotation? = some d := by
  unfold same
  -- Flags and whole numbers are compared as integers, and with a double through its fraction.
  cases hs : s.whole? with
  | some m =>
    rw [denotation?_of_whole hs]
    cases ht : t.whole? with
    | some n =>
      have hunits : (unitsInOne : Int) ≠ 0 := by
        have := unitsInOne_pos
        omega
      rw [denotation?_of_whole ht]
      simp only [beq_iff_eq, Option.some_inj, exists_eq_left', Denotation.number.injEq,
        Int.mul_eq_mul_right_iff hunits]
      exact eq_comm
    | none =>
      cases t with
      | float y => simp [Binary64.sameAsInt_iff, denotation?]
      | null | text _ => simp [denotation?]
      | bool _ | int _ => cases ht
  | none =>
    cases ht : t.whole? with
    | some n =>
      rw [denotation?_of_whole ht]
      cases s with
      | float x => simp [Binary64.sameAsInt_iff, denotation?]
      | null | text _ => simp [denotation?]
      | bool _ | int _ => cases hs
    | none =>
      -- Neither is whole: only two doubles, two texts or two nulls can be the same.
      cases s with
      | float x =>
        cases t with
        | float y => exact Binary64.same_iff x y
        | null | text _ => cases x <;> simp [denotation?, Binary64.denotation?]
        | bool _ | int _ => cases ht
      | null =>
        cases t with
        | float y => cases y <;> simp [denotation?, Binary64.denotation?]
        | null | text _ => simp [denotation?]
        | bool _ | int _ => cases ht
      | text a =>
        cases t with
        | float y => cases y <;> simp [denotation?, Binary64.denotation?]
        | text b =>
          simp only [denotation?, beq_iff_eq, Option.some_inj, exists_eq_left',
            Denotation.text.injEq]
          exact eq_comm
        | null => simp [denotation?]
        | bool _ | int _ => cases ht
      | bool _ | int _ => cases hs

end Scalar

/-! ## Keys -/

namespace Key

theorem beq_iff (k l : Key) : (k == l) = true ↔
    ∃ d, k.scalar.denotation? = some d ∧ l.scalar.denotation? = some d :=
  Scalar.same_iff k.scalar l.scalar

theorem beq_comm (k l : Key) : (k == l) = (l == k) := by
  rw [Bool.eq_iff_iff, beq_iff, beq_iff]
  exact exists_congr fun d => And.comm

/-- Keys that are the same are the same as all others. -/
theorem beq_congr {k l : Key} (h : (k == l) = true) (other : Key) :
    (k == other) = (l == other) := by
  obtain ⟨d, hk, hl⟩ := (beq_iff k l).mp h
  rw [Bool.eq_iff_iff, beq_iff, beq_iff, hk, hl]

end Key

end RouteRules
