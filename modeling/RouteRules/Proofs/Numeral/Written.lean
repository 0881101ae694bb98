import RouteRules.Proofs.Numeral.Reading
import RouteRules.Value.Literal

/-!
# Decimals as they are written

Every layout writes a decimal as digits before and after a point, with an exponent or without, and
so that it is read back as the number that it is.

## Main definitions

- `Layout.parts`: the digits before and after the point of a decimal that is written out in full.
- `Layout.IsPlainTail`: what follows a whole number says nothing else.

## Main statements

- `Layout.magnitude?_decimalText`: a decimal is read back from its text.
-/

namespace RouteRules

namespace Layout

variable {l : Layout} {d : Decimal}

/-! ## Written out in full -/

/-- The digits before and after the point, written out in full. -/
def parts (digits : List Char) (e : ℤ) : List Char × List Char :=
  if e < 0 then (['0'], List.replicate (-e - 1).toNat '0' ++ digits)
  else if digits.length ≤ e.toNat + 1 then
    (digits ++ List.replicate (e.toNat + 1 - digits.length) '0', [])
  else (digits.take (e.toNat + 1), digits.drop (e.toNat + 1))

/-- What follows a whole number is nothing, or a fraction of zeros. -/
def IsPlainTail (tail : String) : Prop := ∃ k, tail.toList = pointed (List.replicate k '0')

theorem pointed_of_ne_nil {fraction : List Char} (h : fraction ≠ []) :
    pointed fraction = '.' :: fraction := by
  cases fraction with
  | nil => exact absurd rfl h
  | cons c cs => rfl

theorem toList_positional (l : Layout) {digits : List Char} (hne : digits ≠ []) (e : ℤ) :
    (l.positional digits e).toList = (parts digits e).1 ++
      if (parts digits e).2 = [] then l.wholeTail.toList else pointed (parts digits e).2 := by
  unfold positional parts
  split
  -- Below one: the zeros and the digits are all behind the point.
  · have hfraction : List.replicate (-e - 1).toNat '0' ++ digits ≠ [] :=
      List.append_ne_nil_of_right_ne_nil _ hne
    rw [if_neg hfraction, pointed_of_ne_nil hfraction, String.toList_ofList]
    rfl
  · split
    -- A whole number, with its tail; otherwise the point falls among the digits.
    · rw [if_pos rfl, String.toList_append, String.toList_ofList]
    · rename_i hlength
      have hfraction : digits.drop (e.toNat + 1) ≠ [] := by
        rw [ne_eq, List.drop_eq_nil_iff]
        exact hlength
      rw [if_neg hfraction, pointed_of_ne_nil hfraction, String.toList_ofList]

theorem parts_fst_ne_nil {digits : List Char} (hne : digits ≠ []) (e : ℤ) :
    (parts digits e).1 ≠ [] := by
  unfold parts
  split
  · exact List.cons_ne_nil _ _
  · split
    · exact List.append_ne_nil_of_left_ne_nil hne _
    · rw [ne_eq, List.take_eq_nil_iff]
      simp [hne]

theorem areDigits_parts {digits : List Char} (h : AreDigits digits) (e : ℤ) :
    AreDigits (parts digits e).1 ∧ AreDigits (parts digits e).2 := by
  unfold parts
  split
  · exact ⟨areDigits_zeros 1, (areDigits_zeros _).append h⟩
  · split
    · exact ⟨h.append (areDigits_zeros _), fun _ hc => absurd hc List.not_mem_nil⟩
    · exact ⟨fun c hc => h c (List.mem_of_mem_take hc), fun c hc => h c (List.mem_of_mem_drop hc)⟩

/-- The digits and the point of a decimal that is written out in full say what it is. -/
theorem pointedValue_parts (d : Decimal) :
    pointedValue (parts d.toDigits d.leadExponent).1 (parts d.toDigits d.leadExponent).2 =
      d.value := by
  have hlength : 0 < d.toDigits.length := Nat.length_toDigits_pos
  have hexponent := d.exponent_eq
  have hdigits := d.digitsValue_toDigits
  unfold parts
  split
  -- The zeros in front say nothing.
  · rename_i hneg
    have hzeros : ['0'] ++ (List.replicate (-d.leadExponent - 1).toNat '0' ++ d.toDigits) =
        List.replicate ((-d.leadExponent - 1).toNat + 1) '0' ++ d.toDigits := rfl
    rw [pointedValue, hzeros, digitsValue_append, digitsValue_zeros, Nat.mul_zero, Nat.zero_add,
      hdigits, List.length_append, List.length_replicate]
    exact (Decimal.value_eq_div (by omega)).symm
  · split
    -- Those behind are a power of ten.
    · have hvalue : d.value =
          (d.digits * 10 ^ (d.leadExponent.toNat + 1 - d.toDigits.length) : ℕ) :=
        Decimal.value_eq_mul (by omega)
      rw [pointedValue, List.append_nil, digitsValue_append, digitsValue_zeros, hdigits,
        List.length_replicate, List.length_nil, pow_zero, div_one, hvalue, Nat.add_zero,
        Nat.mul_comm]
    · rw [pointedValue, List.take_append_drop, hdigits, List.length_drop]
      exact (Decimal.value_eq_div (by omega)).symm

/-- What follows a whole number does not change it. -/
theorem magnitude?_positional (hl : IsPlainTail l.wholeTail) (d : Decimal) :
    Numeral.magnitude? (l.positional d.toDigits d.leadExponent).toList = some d.value := by
  have hne := d.toDigits_ne_nil
  have hdigits := d.areDigits_toDigits
  obtain ⟨hwhole, hfraction⟩ := areDigits_parts hdigits d.leadExponent
  have hvalue := pointedValue_parts d
  rw [toList_positional l hne]
  split
  -- The tail is a fraction of zeros, if it is anything.
  · rename_i hnil
    obtain ⟨k, hk⟩ := hl
    rw [hk, Numeral.magnitude?_pointed (parts_fst_ne_nil hne _) hwhole (areDigits_zeros k),
      Option.some_inj, ← hvalue, hnil, pointedValue, pointedValue, digitsValue_append,
      digitsValue_zeros, List.length_replicate, List.append_nil, Nat.add_zero, Nat.cast_mul,
      Nat.cast_pow, Nat.cast_ofNat, mul_div_cancel_left₀ _ (by positivity), List.length_nil,
      pow_zero, div_one]
  · rw [Numeral.magnitude?_pointed (parts_fst_ne_nil hne _) hwhole hfraction, hvalue]

/-! ## With an exponent -/

/-- The digits of an exponent. -/
def exponentDigits (l : Layout) (e : ℤ) : List Char :=
  List.replicate (l.exponentWidth - (Nat.toDigits 10 e.natAbs).length) '0' ++
    Nat.toDigits 10 e.natAbs

/-- An exponent is its sign and its digits. -/
theorem toList_exponentText (l : Layout) (e : ℤ) :
    (l.exponentText e).toList = (if e < 0 then '-' else '+') :: l.exponentDigits e := by
  rw [exponentText, String.toList_append, String.toList_ofList]
  split <;> rfl

theorem areDigits_exponentDigits (l : Layout) (e : ℤ) : AreDigits (l.exponentDigits e) :=
  (areDigits_zeros _).append (areDigits_toDigits _)

theorem exponent?_exponentText (l : Layout) (e : ℤ) :
    Numeral.exponent? (l.exponentText e).toList = some e := by
  have hne : l.exponentDigits e ≠ [] := List.append_ne_nil_of_right_ne_nil _ Nat.toDigits_ne_nil
  -- The padding does not change what the digits say.
  have hvalue : digitsValue (l.exponentDigits e) = e.natAbs := by
    rw [exponentDigits, digitsValue_append, digitsValue_zeros, Nat.mul_zero, Nat.zero_add,
      digitsValue_toDigits]
  have hdigits := Numeral.digits?_eq_some hne (l.areDigits_exponentDigits e)
  rw [hvalue] at hdigits
  rw [toList_exponentText]
  split
  -- The sign that is written is the one that is read.
  · rename_i hneg
    simp only [Numeral.exponent?, hdigits]
    exact congrArg some (by omega)
  · rename_i hneg
    simp only [Numeral.exponent?, hdigits]
    exact congrArg some (by omega)

theorem e_not_mem_exponentText (l : Layout) (e : ℤ) : 'e' ∉ (l.exponentText e).toList := by
  rw [toList_exponentText, List.mem_cons, not_or]
  refine ⟨?_, (l.areDigits_exponentDigits e).not_mem (by decide)⟩
  split <;> decide

/-- With an exponent, one digit stands before the point. -/
theorem toList_scientific (l : Layout) (lead : Char) (rest : List Char) (e : ℤ) :
    (l.scientific (lead :: rest) e).toList =
      [lead] ++ pointed rest ++ 'e' :: (l.exponentText e).toList := by
  cases rest
  all_goals
    simp only [scientific, String.toList_append, String.toList_ofList, List.append_assoc]
    rfl

theorem magnitude?_scientific (l : Layout) (d : Decimal) :
    Numeral.magnitude? (l.scientific d.toDigits d.leadExponent).toList = some d.value := by
  have hdigits := d.areDigits_toDigits
  have hvalue := d.digitsValue_toDigits
  have hexponent := d.exponent_eq
  obtain ⟨lead, rest, hcons⟩ := List.exists_cons_of_ne_nil d.toDigits_ne_nil
  rw [hcons] at hdigits hvalue hexponent
  rw [hcons, toList_scientific, Numeral.magnitude?_exponent (List.cons_ne_nil _ _)
    (fun c hc => hdigits c (List.mem_cons.mpr (.inl (List.mem_singleton.mp hc))))
    (fun c hc => hdigits c (List.mem_cons_of_mem _ hc)) (l.e_not_mem_exponentText _)
    (l.exponent?_exponentText _), Option.some_inj, pointedValue, List.singleton_append, hvalue,
    Decimal.value, hexponent, List.length_cons, Nat.cast_succ]
  -- The point stands behind the first digit, so the exponent is the leading one.
  have hsum : d.leadExponent - ((rest.length : ℤ) + 1) + 1 = d.leadExponent - rest.length := by ring
  rw [hsum, zpow_sub₀ (by norm_num), zpow_natCast]
  ring

/-- A decimal is read back from its text. -/
theorem magnitude?_decimalText (hl : IsPlainTail l.wholeTail) (d : Decimal) :
    Numeral.magnitude? (l.decimalText d).toList = some d.value := by
  unfold decimalText
  dsimp only
  split
  · exact magnitude?_positional hl d
  · exact magnitude?_scientific l d

/-! ## Signs -/

theorem exists_digit_decimalText (l : Layout) (d : Decimal) :
    ∃ c cs, (l.decimalText d).toList = c :: cs ∧ c.isDigit = true := by
  have hne := d.toDigits_ne_nil
  have hdigits := d.areDigits_toDigits
  unfold decimalText
  dsimp only
  split
  -- In both layouts there is a digit before the point.
  · obtain ⟨c, cs, hcons⟩ := List.exists_cons_of_ne_nil (parts_fst_ne_nil hne d.leadExponent)
    have hwhole := (areDigits_parts hdigits d.leadExponent).1
    rw [hcons] at hwhole
    rw [toList_positional l hne, hcons]
    exact ⟨c, _, rfl, hwhole c (List.mem_cons_self ..)⟩
  · obtain ⟨c, cs, hcons⟩ := List.exists_cons_of_ne_nil hne
    rw [hcons] at hdigits ⊢
    rw [toList_scientific]
    exact ⟨c, _, rfl, hdigits c (List.mem_cons_self ..)⟩

theorem value?_decimalText (hl : IsPlainTail l.wholeTail) (d : Decimal) :
    Numeral.value? (l.decimalText d) = some d.value := by
  obtain ⟨c, cs, hcons, hc⟩ := l.exists_digit_decimalText d
  -- A text that begins with a digit has no sign.
  rw [← magnitude?_decimalText hl d, Numeral.value?, hcons]
  split
  · rename_i heq
    cases heq
    cases hc
  · rfl

theorem value?_neg_decimalText (hl : IsPlainTail l.wholeTail) (d : Decimal) :
    Numeral.value? ("-" ++ l.decimalText d) = some (-d.value) := by
  have hcons : ("-" ++ l.decimalText d).toList = '-' :: (l.decimalText d).toList := by
    rw [String.toList_append]
    rfl
  rw [Numeral.value?, hcons]
  simp only [magnitude?_decimalText hl d]
  rfl

/-- A double that is not zero is written with its sign and its shortest decimal. -/
theorem write_finite (l : Layout) (negative : Bool) {x : Magnitude} (hx : x.mantissa ≠ 0) :
    l.write (.finite negative x) =
      if negative then "-" ++ l.decimalText x.shortest else l.decimalText x.shortest := by
  have hsign : (x.mantissa != 0) = true := bne_iff_ne.mpr hx
  rw [write, magnitudeText, if_neg hx, hsign, Bool.or_true, Bool.and_true]

/-- So every layout says the same number. -/
theorem value?_write (hl : IsPlainTail l.wholeTail) (negative : Bool) {x : Magnitude}
    (hx : x.mantissa ≠ 0) : Numeral.value? (l.write (.finite negative x)) =
      some (if negative then -x.shortest.value else x.shortest.value) := by
  rw [write_finite l negative hx]
  cases negative with
  | true => exact value?_neg_decimalText hl _
  | false => exact value?_decimalText hl _

end Layout

theorem isPlainTail_literalNumber : Layout.IsPlainTail literalNumber.wholeTail := ⟨0, rfl⟩

theorem isPlainTail_spelledNumber : Layout.IsPlainTail spelledNumber.wholeTail := ⟨1, rfl⟩

end RouteRules
