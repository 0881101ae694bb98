import Mathlib.Tactic.IntervalCases
import RouteRules.Numeral.Layout
import RouteRules.Proofs.Numeral.Decimal

/-!
# Reading numerals

What a numeral says, in whatever layout it is written: an optional minus sign, digits with at most
one point among them, and an optional exponent. A decimal says the same in every layout.

## Main definitions

- `Numeral.value?`: the number that a text says, if it is a numeral.
- `pointed`: a fraction with its point; without a fraction there is no point.

## Main statements

- `Numeral.magnitude?_pointed`: digits before and after the point are read as one number.
- `Numeral.magnitude?_exponent`: with an exponent, the number is scaled.
-/

namespace RouteRules

/-! ## Digits -/

theorem digitChar_ne_zero {n : ℕ} (h : n ≠ 0) (hlt : n < 10) : Nat.digitChar n ≠ '0' := by
  have hpos : 0 < n := Nat.pos_of_ne_zero h
  interval_cases n <;> decide

/-- The digits of a positive number do not begin with a zero. -/
theorem head?_toDigits_ne {n : ℕ} (h : n ≠ 0) : (Nat.toDigits 10 n).head? ≠ some '0' := by
  induction n using Nat.strongRecOn with
  | ind n ih =>
    rw [Nat.toDigits_eq_if (by decide)]
    split
    · rename_i hlt
      simpa using digitChar_ne_zero h hlt
    -- The first digit is that of the number without its last digit.
    · rw [List.head?_append_of_ne_nil _ Nat.toDigits_ne_nil]
      exact ih (n / 10) (by omega) (by omega)

/-- The digits of a number that is no multiple of ten do not end in a zero. -/
theorem getLast?_toDigits_ne {n : ℕ} (h : n % 10 ≠ 0) :
    (Nat.toDigits 10 n).getLast? ≠ some '0' := by
  rw [Nat.toDigits_eq_if (by decide)]
  split
  -- A number of one digit is this digit; of a longer one the remainder is the last digit.
  · rename_i hlt
    rw [Nat.mod_eq_of_lt hlt] at h
    simpa using digitChar_ne_zero h hlt
  · simpa using digitChar_ne_zero h (Nat.mod_lt _ (by decide))

/-- Multiples of powers of ten end in as many zeros. -/
theorem toDigits_mul_pow {n : ℕ} (h : n ≠ 0) (k : ℕ) :
    Nat.toDigits 10 (n * 10 ^ k) = Nat.toDigits 10 n ++ List.replicate k '0' := by
  induction k with
  | zero => rw [Nat.pow_zero, Nat.mul_one, List.replicate_zero, List.append_nil]
  | succ k ih =>
    have hpos : 0 < n * 10 ^ k := Nat.mul_pos (Nat.pos_of_ne_zero h) (Nat.pow_pos (by decide))
    -- One more factor of ten puts one more zero behind the digits.
    have hnext : n * 10 ^ (k + 1) = 10 * (n * 10 ^ k) + 0 := by ring
    rw [hnext, ← Nat.toDigits_append_toDigits (by decide) hpos (by decide), ih,
      List.replicate_succ', List.append_assoc]
    rfl

/-- All characters are digits. -/
def AreDigits (cs : List Char) : Prop := ∀ c ∈ cs, c.isDigit = true

theorem areDigits_toDigits (n : ℕ) : AreDigits (Nat.toDigits 10 n) := fun _ hc =>
  Nat.isDigit_of_mem_toDigits (by decide) (by decide) hc

theorem areDigits_zeros (k : ℕ) : AreDigits (List.replicate k '0') := by
  intro c hc
  rw [List.eq_of_mem_replicate hc]
  decide

theorem AreDigits.append {cs ds : List Char} (hcs : AreDigits cs) (hds : AreDigits ds) :
    AreDigits (cs ++ ds) := List.forall_mem_append.mpr ⟨hcs, hds⟩

theorem AreDigits.not_mem {cs : List Char} (h : AreDigits cs) {c : Char} (hc : c.isDigit = false) :
    c ∉ cs := by
  intro hmem
  exact Bool.false_ne_true (hc.symm.trans (h c hmem))

/-- The number that digits write. -/
def digitsValue (cs : List Char) : ℕ := Nat.ofDigitChars 10 cs 0

@[simp] theorem digitsValue_toDigits (n : ℕ) : digitsValue (Nat.toDigits 10 n) = n :=
  Nat.ofDigitChars_ten_toDigits

theorem digitsValue_append (cs ds : List Char) :
    digitsValue (cs ++ ds) = 10 ^ ds.length * digitsValue cs + digitsValue ds := by
  rw [digitsValue, Nat.ofDigitChars_append, Nat.ofDigitChars_eq_ofDigitChars_zero]
  rfl

@[simp] theorem digitsValue_zeros (k : ℕ) : digitsValue (List.replicate k '0') = 0 :=
  Nat.ofDigitChars_replicate_zero

namespace Decimal

theorem toDigits_ne_nil (d : Decimal) : d.toDigits ≠ [] := Nat.toDigits_ne_nil

theorem areDigits_toDigits (d : Decimal) : AreDigits d.toDigits :=
  RouteRules.areDigits_toDigits d.digits

theorem digitsValue_toDigits (d : Decimal) : digitsValue d.toDigits = d.digits :=
  RouteRules.digitsValue_toDigits d.digits

/-- The exponent, from the leading power of ten and the number of digits. -/
theorem exponent_eq (d : Decimal) : d.exponent = d.leadExponent - d.toDigits.length + 1 := by
  unfold leadExponent
  omega

end Decimal

/-! ## Numerals -/

/-- A fraction with its point. Without a fraction there is no point. -/
def pointed : List Char → List Char
  | [] => []
  | fraction => '.' :: fraction

/-- The number that digits before and after the point write. -/
def pointedValue (whole fraction : List Char) : ℚ :=
  (digitsValue (whole ++ fraction) : ℚ) / 10 ^ fraction.length

namespace Numeral

/-- The number that a text of digits writes. -/
def digits? (cs : List Char) : Option ℕ :=
  if cs ≠ [] ∧ cs.all Char.isDigit then some (digitsValue cs) else none

/-- The number that digits write with at most one point among them. -/
def mantissa? (cs : List Char) : Option ℚ :=
  match cs.splitOn '.' with
  | [whole] => do return (← digits? whole : ℕ)
  | [whole, fraction] => do
    return (← digits? whole : ℕ) + (← digits? fraction : ℕ) / 10 ^ fraction.length
  | _ => none

/-- The number that an exponent writes, with a sign or without. -/
def exponent? : List Char → Option ℤ
  | '-' :: cs => do return -(← digits? cs : ℕ)
  | '+' :: cs => do return (← digits? cs : ℕ)
  | cs => do return (← digits? cs : ℕ)

/-- The number that a numeral without a sign writes. -/
def magnitude? (cs : List Char) : Option ℚ :=
  match cs.splitOn 'e' with
  | [mantissa] => mantissa? mantissa
  | [mantissa, exponent] => do return (← mantissa? mantissa) * 10 ^ (← exponent? exponent)
  | _ => none

/-- The number that a text writes, if it is a numeral. -/
def value? (s : String) : Option ℚ :=
  match s.toList with
  | '-' :: cs => do return -(← magnitude? cs)
  | cs => magnitude? cs

variable {whole fraction : List Char}

theorem digits?_eq_some {cs : List Char} (hne : cs ≠ []) (h : AreDigits cs) :
    digits? cs = some (digitsValue cs) := if_pos ⟨hne, List.all_eq_true.mpr h⟩

/-- Digits before and after the point are read as one number. -/
theorem mantissa?_pointed (hne : whole ≠ []) (hwhole : AreDigits whole)
    (hfraction : AreDigits fraction) : mantissa? (whole ++ pointed fraction) =
      some (pointedValue whole fraction) := by
  have hpoint : '.' ∉ whole := hwhole.not_mem (by decide)
  have hdigits := digits?_eq_some hne hwhole
  unfold mantissa?
  cases fraction with
  | nil =>
    -- Without a point there is one part only.
    rw [pointed, List.append_nil, List.splitOn_eq_singleton hpoint]
    simp [hdigits, pointedValue]
  | cons c cs =>
    have hrest : '.' ∉ c :: cs := hfraction.not_mem (by decide)
    have hpow : (10 : ℚ) ^ (c :: cs).length ≠ 0 := by positivity
    have htext : whole ++ pointed (c :: cs) = whole ++ '.' :: (c :: cs) := rfl
    rw [htext, List.splitOn_append_cons_self_of_not_mem hpoint, List.splitOn_eq_singleton hrest]
    simp only [hdigits, digits?_eq_some (List.cons_ne_nil c cs) hfraction, Option.pure_def,
      Option.bind_eq_bind, Option.bind_some, Option.some_inj]
    rw [pointedValue, digitsValue_append]
    push_cast
    rw [add_div, mul_div_cancel_left₀ _ hpow]

theorem e_not_mem_pointed (hwhole : AreDigits whole) (hfraction : AreDigits fraction) :
    'e' ∉ whole ++ pointed fraction := by
  have h : 'e' ∉ pointed fraction := by
    -- The point is the only character that is no digit, and it is no `e` either.
    cases fraction with
    | nil => exact List.not_mem_nil
    | cons c cs =>
      intro hmem
      rcases List.mem_cons.mp hmem with heq | hmem
      · cases heq
      · exact hfraction.not_mem (by decide) hmem
  intro hmem
  rcases List.mem_append.mp hmem with hmem | hmem
  · exact hwhole.not_mem (by decide) hmem
  · exact h hmem

theorem magnitude?_pointed (hne : whole ≠ []) (hwhole : AreDigits whole)
    (hfraction : AreDigits fraction) : magnitude? (whole ++ pointed fraction) =
      some (pointedValue whole fraction) := by
  rw [magnitude?, List.splitOn_eq_singleton (e_not_mem_pointed hwhole hfraction)]
  exact mantissa?_pointed hne hwhole hfraction

theorem magnitude?_exponent (hne : whole ≠ []) (hwhole : AreDigits whole)
    (hfraction : AreDigits fraction) {exponent : List Char} (hexponent : 'e' ∉ exponent) {e : ℤ}
    (he : exponent? exponent = some e) :
    magnitude? (whole ++ pointed fraction ++ 'e' :: exponent) =
      some (pointedValue whole fraction * 10 ^ e) := by
  rw [magnitude?, List.splitOn_append_cons_self_of_not_mem (e_not_mem_pointed hwhole hfraction),
    List.splitOn_eq_singleton hexponent]
  simp only [mantissa?_pointed hne hwhole hfraction, he]
  rfl

end Numeral

end RouteRules
