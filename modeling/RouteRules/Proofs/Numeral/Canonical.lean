import RouteRules.Proofs.Numeral.Shortest
import RouteRules.Proofs.Numeral.Written

/-!
# The canonical form of literals

The literal of a double has one of two forms. Inside a range it is written out in full, outside of
it with one digit before the point and an exponent; nowhere does it have a zero, a point or a sign
that it could do without. Literals say exactly what the spelled-out double says, so different
doubles have different literals.

## Main definitions

- `IsPlain`, `IsScientific`: the two forms.
- `Magnitude.InPlainRange`: the range from one millionth up to and without `10 ^ 21`.
- `IsCanonical`: the form of a literal and what it says.

## Main statements

- `Magnitude.leadExponent_iff_inPlainRange`: the range, by the shortest decimal.
- `literal_canonical`: doubles have canonical literals, and no two have the same.
-/

namespace RouteRules

/-! ## Canonical forms -/

/-- The digits of a whole number. A zero stands in front only by itself. -/
structure IsWhole (cs : List Char) : Prop where
  ne_nil : cs ≠ []
  areDigits : AreDigits cs
  eq_zero : cs.head? = some '0' → cs = ['0']

/-- The digits of a fraction, which may be none. The last one is not a zero. -/
structure IsFraction (cs : List Char) : Prop where
  areDigits : AreDigits cs
  getLast?_ne : cs.getLast? ≠ some '0'

/-- A numeral without an exponent. Where there is a point, there is a fraction. -/
inductive IsPlain : List Char → Prop where
  | intro {whole fraction : List Char} :
      IsWhole whole → IsFraction fraction → IsPlain (whole ++ pointed fraction)

/-- A numeral with one digit before the point, if there is a point, and an exponent with its
sign. -/
inductive IsScientific : List Char → Prop where
  | intro {lead sign : Char} {fraction exponent : List Char} :
      lead.isDigit = true → lead ≠ '0' → IsFraction fraction → sign = '+' ∨ sign = '-' →
      IsWhole exponent → exponent ≠ ['0'] →
      IsScientific ([lead] ++ pointed fraction ++ 'e' :: sign :: exponent)

theorem IsPlain.not_mem {cs : List Char} (h : IsPlain cs) : 'e' ∉ cs := by
  cases h with
  | intro hwhole hfraction =>
    exact Numeral.e_not_mem_pointed hwhole.areDigits hfraction.areDigits

theorem IsScientific.mem {cs : List Char} (h : IsScientific cs) : 'e' ∈ cs := by
  cases h
  exact List.mem_append_right _ (List.mem_cons_self ..)

theorem isWhole_toDigits {n : ℕ} (h : n ≠ 0) : IsWhole (Nat.toDigits 10 n) where
  ne_nil := Nat.toDigits_ne_nil
  areDigits := areDigits_toDigits n
  eq_zero hzero := absurd hzero (head?_toDigits_ne h)

namespace Layout

variable {d : Decimal}

/-! ## Written out in full -/

/-- Before the point there are no needless zeros, nor are there after it. -/
theorem isWhole_isFraction_parts (hd : d.digits % 10 ≠ 0) (e : ℤ) :
    IsWhole (parts d.toDigits e).1 ∧ IsFraction (parts d.toDigits e).2 := by
  have hne := d.toDigits_ne_nil
  have hhead : d.toDigits.head? ≠ some '0' := head?_toDigits_ne fun h => hd (by rw [h])
  have hlast : d.toDigits.getLast? ≠ some '0' := getLast?_toDigits_ne hd
  have hwhole : (parts d.toDigits e).1.head? = some '0' → (parts d.toDigits e).1 = ['0'] := by
    unfold parts
    split
    -- Only a fraction has a zero in front, and this zero stands by itself.
    · exact fun _ => rfl
    · split
      · rw [List.head?_append_of_ne_nil _ hne]
        exact fun hzero => absurd hzero hhead
      · rw [List.head?_take, if_neg (Nat.succ_ne_zero _)]
        exact fun hzero => absurd hzero hhead
  have hfraction : (parts d.toDigits e).2.getLast? ≠ some '0' := by
    unfold parts
    split
    · rwa [List.getLast?_append_of_ne_nil _ hne]
    · split
      · exact fun h => by cases h
      -- What is left for the fraction ends like the digits themselves.
      · rename_i hlength
        rwa [List.getLast?_drop, if_neg hlength]
  obtain ⟨hdigits, hdigits'⟩ := areDigits_parts d.areDigits_toDigits e
  exact ⟨⟨parts_fst_ne_nil hne e, hdigits, hwhole⟩, ⟨hdigits', hfraction⟩⟩

theorem toList_positional_literal (digits : List Char) (hne : digits ≠ []) (e : ℤ) :
    (literalNumber.positional digits e).toList =
      (parts digits e).1 ++ pointed (parts digits e).2 := by
  rw [toList_positional _ hne]
  split
  · rename_i hnil
    rw [hnil]
    rfl
  · rfl

theorem isPlain_positional (hd : d.digits % 10 ≠ 0) (e : ℤ) :
    IsPlain (literalNumber.positional d.toDigits e).toList := by
  obtain ⟨hwhole, hfraction⟩ := isWhole_isFraction_parts hd e
  rw [toList_positional_literal _ d.toDigits_ne_nil]
  exact .intro hwhole hfraction

/-- A whole number is written with all its digits and nothing else. -/
theorem positional_of_whole (hd : d.digits % 10 ≠ 0) {n : ℕ} (h : d.value = n) :
    (literalNumber.positional d.toDigits d.leadExponent).toList = Nat.toDigits 10 n := by
  have hlength : 0 < d.toDigits.length := Nat.length_toDigits_pos
  have hexponent := d.exponent_eq
  -- Below zero, the exponent would take the last digit behind the point.
  have hnonneg : 0 ≤ d.exponent := by
    by_contra hneg
    obtain ⟨k, hk⟩ : ∃ k : ℕ, d.exponent = -((k + 1 : ℕ) : ℤ) :=
      ⟨(-d.exponent - 1).toNat, by omega⟩
    rw [Decimal.value_eq_div hk, div_eq_iff (by positivity)] at h
    have hdigits : d.digits = n * 10 ^ (k + 1) := by exact_mod_cast h
    apply hd
    rw [hdigits, Nat.pow_succ, ← Nat.mul_assoc, Nat.mul_mod_left]
  obtain ⟨k, hk⟩ := Int.eq_ofNat_of_zero_le hnonneg
  have hn : n = d.digits * 10 ^ k := by
    rw [Decimal.value_eq_mul hk] at h
    exact_mod_cast h.symm
  have hzeros : d.leadExponent.toNat + 1 - d.toDigits.length = k := by omega
  rw [toList_positional_literal _ d.toDigits_ne_nil, parts, if_neg (by omega), if_pos (by omega),
    hzeros, hn, toDigits_mul_pow fun hzero => hd (by rw [hzero])]
  exact List.append_nil _

/-! ## With an exponent -/

theorem isScientific_scientific (hd : d.digits % 10 ≠ 0) {e : ℤ} (he : e ≠ 0) :
    IsScientific (literalNumber.scientific d.toDigits e).toList := by
  have hhead : d.toDigits.head? ≠ some '0' := head?_toDigits_ne fun h => hd (by rw [h])
  have hlast : d.toDigits.getLast? ≠ some '0' := getLast?_toDigits_ne hd
  have hdigits := d.areDigits_toDigits
  -- A literal asks for no more than one digit in the exponent, so none is padded.
  have hexponent : literalNumber.exponentDigits e = Nat.toDigits 10 e.natAbs := by
    have hlength : 0 < (Nat.toDigits 10 e.natAbs).length := Nat.length_toDigits_pos
    have hpadding : literalNumber.exponentWidth - (Nat.toDigits 10 e.natAbs).length = 0 :=
      Nat.sub_eq_zero_of_le hlength
    rw [exponentDigits, hpadding, List.replicate_zero, List.nil_append]
  have hwhole := isWhole_toDigits (Int.natAbs_ne_zero.mpr he)
  obtain ⟨lead, rest, hcons⟩ := List.exists_cons_of_ne_nil d.toDigits_ne_nil
  rw [hcons] at hhead hlast hdigits ⊢
  rw [toList_scientific, toList_exponentText, hexponent]
  -- The digit before the point is the first one, and those behind it are the rest.
  refine .intro (hdigits lead (List.mem_cons_self ..)) ?first ⟨?digits, ?last⟩ ?sign hwhole ?zero
  case first => exact fun h => hhead (congrArg some h)
  case digits => exact fun c hc => hdigits c (List.mem_cons_of_mem _ hc)
  case last =>
    cases rest with
    | nil => exact fun h => by cases h
    | cons next others => rwa [List.getLast?_cons_cons] at hlast
  case sign => split <;> simp
  case zero =>
    intro h
    apply head?_toDigits_ne (Int.natAbs_ne_zero.mpr he)
    rw [h, List.head?_cons]

end Layout

/-! ## The plain range -/

/-- The double nearest to one millionth. -/
def millionth : Magnitude := (Magnitude.nearest? 1 (Nat.pow 10 6)).getD .zero

/-- The double nearest to `10 ^ 21`, which is that number itself. -/
def sextillion : Magnitude := (Magnitude.nearest? (Nat.pow 10 21) 1).getD .zero

theorem value_sextillion : sextillion.value = 10 ^ 21 := by
  -- In units both are integers, small enough to be computed.
  have hunits : sextillion.units = 10 ^ 21 * unitsInOne := by
    unfold unitsInOne
    decide +kernel
  have hone : (unitsInOne : ℚ) ≠ 0 := by exact_mod_cast unitsInOne_pos.ne'
  rw [Magnitude.value, hunits, Nat.cast_mul, mul_div_cancel_right₀ _ hone]
  norm_num

namespace Magnitude

variable {x y : Magnitude}

/-- The magnitude is not below the double nearest to one millionth, and below `10 ^ 21`. -/
def InPlainRange (x : Magnitude) : Prop := millionth.value ≤ x.value ∧ x.value < 10 ^ 21

theorem value_le_value_iff : x.value ≤ y.value ↔ x.units ≤ y.units := by
  have hone : (0 : ℚ) < unitsInOne := by exact_mod_cast unitsInOne_pos
  rw [value, value, div_le_div_iff_of_pos_right hone, Nat.cast_le]

/-- Where a double is written as a power of ten, the leading power of ten tells which doubles are
smaller. -/
theorem le_leadExponent_iff (hx : x.mantissa ≠ 0) (hy : y.mantissa ≠ 0) {e : ℤ}
    (h : y.shortest = ⟨1, e⟩) : e ≤ x.shortest.leadExponent ↔ y.value ≤ x.value := by
  have hpow : y.shortest.value = 10 ^ e := by
    rw [h, Decimal.value, Nat.cast_one, one_mul]
  rw [Decimal.le_leadExponent_iff (shortest_digits_ne_zero hx), ← hpow, shortest_le_iff hy hx,
    value_le_value_iff]

/-- The leading power of ten of the shortest decimal tells whether a double is in the range. -/
theorem leadExponent_iff_inPlainRange (hx : x.mantissa ≠ 0) :
    -6 ≤ x.shortest.leadExponent ∧ x.shortest.leadExponent < 21 ↔ x.InPlainRange := by
  -- Both ends of the range are doubles whose shortest decimal is a power of ten.
  have hmillionth := le_leadExponent_iff (y := millionth) (e := -6) hx (by decide +kernel)
    (by decide +kernel)
  have hsextillion := le_leadExponent_iff (y := sextillion) (e := 21) hx (by decide +kernel)
    (by decide +kernel)
  rw [value_sextillion] at hsextillion
  rw [InPlainRange, hmillionth, ← not_le, hsextillion, not_le]

end Magnitude

/-! ## Literals -/

/-- The literal of a double in the plain range is plain, and outside of it scientific. -/
theorem form_of_decimalText {x : Magnitude} (hx : x.mantissa ≠ 0) :
    (IsPlain (literalNumber.decimalText x.shortest).toList ↔ x.InPlainRange) ∧
      (IsScientific (literalNumber.decimalText x.shortest).toList ↔ ¬ x.InPlainRange) := by
  have hd := Magnitude.shortest_mod_ten hx
  have hrange := Magnitude.leadExponent_iff_inPlainRange hx
  rw [← hrange]
  unfold Layout.decimalText
  dsimp only
  split
  · rename_i hinside
    have hplain := Layout.isPlain_positional hd x.shortest.leadExponent
    exact ⟨iff_of_true hplain hinside,
      iff_of_false (fun h => hplain.not_mem h.mem) (not_not_intro hinside)⟩
  · rename_i houtside
    -- Outside of the range the exponent cannot be zero.
    have hscientific := Layout.isScientific_scientific hd (e := x.shortest.leadExponent) fun h =>
      houtside ⟨h ▸ by decide, h ▸ by decide⟩
    exact ⟨iff_of_false (fun h => h.not_mem hscientific.mem) houtside,
      iff_of_true hscientific houtside⟩

/-- A whole number in the plain range is written with all its digits. -/
theorem decimalText_of_whole {x : Magnitude} (hx : x.mantissa ≠ 0) (hrange : x.InPlainRange)
    {n : ℕ} (h : x.shortest.value = n) :
    (literalNumber.decimalText x.shortest).toList = Nat.toDigits 10 n := by
  have hinside : literalNumber.plainFrom ≤ x.shortest.leadExponent ∧
      x.shortest.leadExponent < literalNumber.plainBelow :=
    (Magnitude.leadExponent_iff_inPlainRange hx).mpr hrange
  rw [Layout.decimalText, if_pos hinside]
  exact Layout.positional_of_whole (Magnitude.shortest_mod_ten hx) h

/-- The zeros have one literal. -/
theorem write_zero (negative : Bool) {x : Magnitude} (hx : x.mantissa = 0) :
    literalNumber.write (.finite negative x) = "0" := by
  have hsign : (x.mantissa != 0) = false := by simp [hx]
  have htail : "0" ++ literalNumber.wholeTail = "0" := by decide +kernel
  rw [Layout.write, Layout.magnitudeText, if_pos hx, hsign, htail, Bool.or_false]
  exact if_neg (by simp [literalNumber])

theorem value?_zero : Numeral.value? "0" = some 0 := by
  have htext : literalNumber.decimalText ⟨0, 0⟩ = "0" := by decide +kernel
  rw [← htext, Layout.value?_decimalText isPlainTail_literalNumber, Decimal.value, Nat.cast_zero,
    zero_mul]

/-- The number that the literal of a finite double says. -/
def Magnitude.writtenValue (negative : Bool) (x : Magnitude) : ℚ :=
  if x.mantissa = 0 then 0 else if negative then -x.shortest.value else x.shortest.value

theorem value?_literalNumber (negative : Bool) (x : Magnitude) :
    Numeral.value? (literalNumber.write (.finite negative x)) = some (x.writtenValue negative) := by
  unfold Magnitude.writtenValue
  split
  · rename_i hx
    rw [write_zero negative hx, value?_zero]
  · rename_i hx
    exact Layout.value?_write isPlainTail_literalNumber negative hx

/-- Different doubles are written as different numbers. -/
theorem Magnitude.eq_of_writtenValue_eq {s t : Bool} {x y : Magnitude}
    (h : x.writtenValue s = y.writtenValue t) : x = y ∧ (s = t ∨ x.mantissa = 0) := by
  -- Zero is written as zero, and all else with its sign and its shortest decimal.
  unfold writtenValue at h
  by_cases hx : x.mantissa = 0
  · by_cases hy : y.mantissa = 0
    · refine ⟨eq_of_units_eq ?_, .inr hx⟩
      rw [units_eq_zero_iff.mpr hx, units_eq_zero_iff.mpr hy]
    · have hpos := (attracts_shortest hy).pos hy
      rw [if_pos hx, if_neg hy] at h
      split at h <;> linarith
  · have hxpos := (attracts_shortest hx).pos hx
    by_cases hy : y.mantissa = 0
    · rw [if_neg hx, if_pos hy] at h
      split at h <;> linarith
    · have hypos := (attracts_shortest hy).pos hy
      rw [if_neg hx, if_neg hy] at h
      -- Two numbers that are not zero: the order of the shortest decimals is that of the doubles.
      have hunits : x.shortest.value = y.shortest.value → x = y := fun heq =>
        eq_of_units_eq <| Nat.le_antisymm ((shortest_le_iff hx hy).mp heq.le)
          ((shortest_le_iff hy hx).mp heq.ge)
      cases s <;> cases t
      · exact ⟨hunits h, .inl rfl⟩
      -- With different signs one number is above zero and the other below.
      · rw [if_neg Bool.false_ne_true, if_pos rfl] at h
        linarith
      · rw [if_pos rfl, if_neg Bool.false_ne_true] at h
        linarith
      · exact ⟨hunits (neg_inj.mp h), .inl rfl⟩

/-- Doubles with one literal are the same. -/
theorem same_of_write_eq {s t : Bool} {x y : Magnitude}
    (h : literalNumber.write (.finite s x) = literalNumber.write (.finite t y)) :
    (Binary64.finite s x).same (.finite t y) = true := by
  have hvalue := congrArg Numeral.value? h
  rw [value?_literalNumber, value?_literalNumber, Option.some_inj] at hvalue
  obtain ⟨rfl, hsign⟩ := Magnitude.eq_of_writtenValue_eq hvalue
  simp only [Binary64.same, Bool.and_eq_true, Bool.or_eq_true, beq_iff_eq]
  exact ⟨trivial, hsign⟩

/-- The canonical literal of a double that is not zero. -/
structure IsCanonical (negative : Bool) (x : Magnitude) (text : String) : Prop where
  /-- The text says the number that the shortest decimal says … -/
  value?_eq : Numeral.value? text =
    some (if negative then -x.shortest.value else x.shortest.value)
  /-- … and so does the double as it is spelled out elsewhere. -/
  value?_display : Numeral.value? (Value.float (.finite negative x)).display = Numeral.value? text
  /-- Only negative numbers have a sign. Behind it, the range decides about the form. A whole number
  that is written plainly keeps all its digits. -/
  form : ∃ body, text.toList = (if negative then '-' :: body else body) ∧
    (IsPlain body ↔ x.InPlainRange) ∧ (IsScientific body ↔ ¬ x.InPlainRange) ∧
    (x.InPlainRange → ∀ n : ℕ, x.shortest.value = n → body = Nat.toDigits 10 n)

theorem toList_write (negative : Bool) {x : Magnitude} (hx : x.mantissa ≠ 0) :
    (literalNumber.write (.finite negative x)).toList =
      if negative then '-' :: (literalNumber.decimalText x.shortest).toList
      else (literalNumber.decimalText x.shortest).toList := by
  rw [Layout.write_finite _ negative hx]
  cases negative with
  | true =>
    rw [if_pos rfl, if_pos rfl, String.toList_append]
    rfl
  | false => rfl

theorem isCanonical_write (negative : Bool) {x : Magnitude} (hx : x.mantissa ≠ 0) :
    IsCanonical negative x (literalNumber.write (.finite negative x)) where
  value?_eq := Layout.value?_write isPlainTail_literalNumber negative hx
  value?_display := by
    have hdisplay : (Value.float (.finite negative x)).display =
        spelledNumber.write (.finite negative x) := rfl
    rw [hdisplay, Layout.value?_write isPlainTail_literalNumber negative hx,
      Layout.value?_write isPlainTail_spelledNumber negative hx]
  form := ⟨_, toList_write negative hx, (form_of_decimalText hx).1, (form_of_decimalText hx).2,
    fun hrange _ hn => decimalText_of_whole hx hrange hn⟩

/-- Each double that is not zero has a canonical literal, written with its shortest decimal, and
doubles with one literal are the same. -/
theorem literal_canonical :
    (∀ negative x, x.mantissa ≠ 0 → x.IsShortest x.shortest ∧
      ∃ text, (Value.float (.finite negative x)).literal = .ok text ∧
        IsCanonical negative x text) ∧
    ∀ s t x y, (Value.float (.finite s x)).literal = (Value.float (.finite t y)).literal →
      (Binary64.finite s x).same (.finite t y) = true := by
  constructor
  · intro negative x hx
    exact ⟨Magnitude.isShortest_shortest hx, _, rfl, isCanonical_write negative hx⟩
  · intro s t x y h
    exact same_of_write_eq (Except.ok.inj h)

/-- The double nearest to `10 ^ (-5)`. -/
def hundredThousandth : Magnitude := (Magnitude.nearest? 1 (Nat.pow 10 5)).getD .zero

/-- A small number is written out in full, though it is spelled with an exponent elsewhere. With the
other sign it has another literal. -/
theorem literal_canonical_hundredThousandth :
    hundredThousandth.mantissa ≠ 0 ∧
    (Value.float (.finite true hundredThousandth)).display = "-1e-05" ∧
    (Value.float (.finite true hundredThousandth)).literal = .ok "-0.00001" ∧
    IsCanonical true hundredThousandth "-0.00001" ∧
    (Value.float (.finite false hundredThousandth)).literal ≠ .ok "-0.00001" := by
  have hx : hundredThousandth.mantissa ≠ 0 := by decide +kernel
  have hliteral : (Value.float (.finite true hundredThousandth)).literal = .ok "-0.00001" := by
    decide +kernel
  obtain ⟨_, text, htext, hcanonical⟩ := literal_canonical.1 true hundredThousandth hx
  have heq : text = "-0.00001" := Except.ok.inj (htext.symm.trans hliteral)
  refine ⟨hx, by decide +kernel, hliteral, heq ▸ hcanonical, fun h => ?_⟩
  have hsame := literal_canonical.2 false true _ _ (h.trans hliteral.symm)
  exact absurd hsame (by decide +kernel)

end RouteRules
