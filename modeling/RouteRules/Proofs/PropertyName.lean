import RouteRules.FieldName
import RouteRules.Proofs.Numeral.Integers

/-!
# Keys as property names

What a key says in generated code, where the name of a property is a text in quotes, an identifier
or a numeral. A numeral is the number that it writes, and so the property goes by the literal of
this number. A field is written under a key that says its name, except for some names of word
characters with a digit in front: these stand bare although they are no identifiers.

## Main definitions

- `PropertyName.read?`: the name that the text of a property name says.
- `FieldName.IsIdentifier`, `FieldName.IsIndex`: the names that may stand bare.
- `FieldName.Denotes`: a key says a name, and is of the right form.

## Main statements

- `PropertyName.read?_eq_iff_of_isDigit`: which numerals say themselves.
- `FieldName.quote_injective`: different names have different keys.
- `FieldName.quote_denotes_iff`: which names their keys denote.
-/

namespace RouteRules

namespace PropertyName

/-! ## Reading -/

/-- A character that stands for itself between single quotes: no quote, no escape and no line
break. -/
def isPlain (c : Char) : Bool :=
  c != '\'' && c != '\\' && c != '\n' && c != '\r' && c != '\u2028' && c != '\u2029'

/-- What stands before the closing quote. Texts with escapes are not read. -/
def quoted? (cs : List Char) : Option String :=
  if cs.getLast? = some '\'' ∧ cs.dropLast.all isPlain then some (String.ofList cs.dropLast)
  else none

/-- The value of a character as a digit. -/
def digitIn? (base : ℕ) (c : Char) : Option ℕ :=
  ("0123456789abcdef".toList.idxOf? c.toLower).filter (· < base)

/-- The number that digits write. There must be one at least. -/
def digitsIn? (base : ℕ) : List Char → Option ℕ
  | [] => none
  | cs => (fun digits => digits.foldl (base * · + ·) 0) <$> cs.mapM (digitIn? base)

/-- The base that a letter after a zero stands for. -/
def base? (c : Char) : Option ℕ :=
  match c.toLower with
  | 'x' => some 16
  | 'o' => some 8
  | 'b' => some 2
  | _ => none

/-- The double that a decimal numeral writes, with an exponent or without. -/
def decimal? (cs : List Char) : Option Binary64 :=
  match cs.splitOnP fun c => c.toLower == 'e' with
  | [digits] => do return .ofDecimal false (← Numeral.digits? digits) 0
  | [digits, exponent] => do
    return .ofDecimal false (← Numeral.digits? digits) (← Numeral.digits? exponent : ℕ)
  | _ => none

/-- The double that a numeral writes. No other digit follows a zero in front. -/
def numeral? : List Char → Option Binary64
  | '0' :: c :: cs =>
    match base? c with
    | some base => do return .ofDecimal false (← digitsIn? base cs) 0
    | none => if c.isDigit then none else decimal? ('0' :: c :: cs)
  | cs => decimal? cs

/-- Whether an identifier can begin with the character. -/
def isStart (c : Char) : Bool := c.isAlpha || c == '_'

/-- The name that the text of a property name says. -/
def read? (text : String) : Option String :=
  match text.toList with
  | [] => none
  | '\'' :: cs => quoted? cs
  | c :: cs =>
    if isStart c then if cs.all FieldName.isWordChar then some text else none
    -- A property that is named by a number goes by the literal of the number.
    else literalNumber.write <$> numeral? (c :: cs)

theorem read?_quoted {name : String} (h : ∀ c ∈ name.toList, isPlain c = true) :
    read? ("'" ++ name ++ "'") = some name := by
  have htext : ("'" ++ name ++ "'").toList = '\'' :: (name.toList ++ ['\'']) := by
    rw [String.toList_append, String.toList_append]
    rfl
  rw [read?, htext]
  show quoted? _ = _
  -- The last quote is the one that was put there, and no character before it has a meaning of its
  -- own.
  rw [quoted?, List.getLast?_concat, List.dropLast_concat, if_pos ⟨rfl, List.all_eq_true.mpr h⟩,
    String.ofList_toList]

/-! ## Numerals -/

theorem exists_digitChar {c : Char} (h : c.isDigit = true) : ∃ d < 10, c = Nat.digitChar d := by
  obtain ⟨hlow, hhigh⟩ := Char.isDigit_iff_toNat.mp h
  have hlow : 48 ≤ c.toNat := hlow
  have hhigh : c.toNat ≤ 57 := hhigh
  refine ⟨c.toNat - 48, by omega, ?_⟩
  apply Char.toNat_inj.mp
  rw [Nat.toNat_digitChar_of_lt_ten (by omega)]
  omega

/-- No digit is a letter: it begins no identifier, no exponent, and stands for no base. -/
theorem not_letter_of_isDigit {c : Char} (h : c.isDigit = true) :
    isStart c = false ∧ (c.toLower == 'e') = false ∧ base? c = none := by
  obtain ⟨d, hd, rfl⟩ := exists_digitChar h
  -- There are ten digits to look at.
  have hall : ∀ d < 10, isStart (Nat.digitChar d) = false ∧
      ((Nat.digitChar d).toLower == 'e') = false ∧ base? (Nat.digitChar d) = none := by decide
  exact hall d hd

theorem decimal?_toDigits (n : ℕ) :
    decimal? (Nat.toDigits 10 n) = some (.ofDecimal false n 0) := by
  have hdigits := areDigits_toDigits n
  have hexponent : ∀ c ∈ Nat.toDigits 10 n, (c.toLower == 'e') = false := fun c hc =>
    (not_letter_of_isDigit (hdigits c hc)).2.1
  rw [decimal?, List.splitOnP_eq_singleton hexponent]
  simp only [Numeral.digits?_eq_some Nat.toDigits_ne_nil hdigits, digitsValue_toDigits]
  rfl

/-- The digits of a number are a numeral for the double nearest to it. -/
theorem numeral?_toDigits (n : ℕ) :
    numeral? (Nat.toDigits 10 n) = some (.ofDecimal false n 0) := by
  rw [← decimal?_toDigits]
  unfold numeral?
  split
  · rename_i c cs heq
    -- A zero in front would be all of the number.
    exfalso
    by_cases hn : n = 0
    · rw [hn] at heq
      cases heq
    · exact head?_toDigits_ne hn (by rw [heq, List.head?_cons])
  · rfl

/-- A name with a digit in front is read as a numeral. -/
theorem read?_of_isDigit {name : String} {c : Char} {cs : List Char} (h : name.toList = c :: cs)
    (hc : c.isDigit = true) : read? name = literalNumber.write <$> numeral? name.toList := by
  have hstart := (not_letter_of_isDigit hc).1
  -- The reader goes by the first character: it is no quote and begins no identifier.
  rw [read?, h]
  split
  · rename_i heq
    cases heq
  · rename_i heq
    cases heq
    cases hc
  · rename_i heq
    cases heq
    rw [if_neg (Bool.eq_false_iff.mp hstart)]

theorem not_isScientific_of_words {cs : List Char}
    (hword : ∀ c ∈ cs, FieldName.isWordChar c = true) : ¬ IsScientific cs := by
  intro h
  cases h with
  | @intro lead sign fraction exponent hlead hne hfraction hsign hexponent hzero =>
    -- An exponent always has a sign.
    have hmem : sign ∈ [lead] ++ pointed fraction ++ 'e' :: sign :: exponent := by simp
    have hsign' := hword sign hmem
    rcases hsign with rfl | rfl
    · cases hsign'
    · cases hsign'

/-- A decimal without a point is worth a whole number. -/
theorem exists_value_of_isPlain {d : Decimal}
    (hword : ∀ c ∈ (literalNumber.decimalText d).toList, FieldName.isWordChar c = true)
    (h : IsPlain (literalNumber.decimalText d).toList) : ∃ n : ℕ, d.value = n := by
  have hvalue := Layout.magnitude?_decimalText isPlainTail_literalNumber d
  generalize (literalNumber.decimalText d).toList = cs at hword h hvalue
  cases h with
  | @intro whole fraction hwhole hfraction =>
    rw [Numeral.magnitude?_pointed hwhole.ne_nil hwhole.areDigits hfraction.areDigits,
      Option.some_inj] at hvalue
    -- With a fraction there would be a point in the text.
    cases fraction with
    | nil =>
      refine ⟨digitsValue whole, ?_⟩
      rw [← hvalue, pointedValue, List.append_nil, List.length_nil, pow_zero, div_one]
    | cons c rest =>
      have hpoint := hword '.' (by simp [pointed])
      cases hpoint

/-- What is written of word characters with a digit in front is the digits of a number. -/
theorem exists_toString_of_write {x : Binary64} {name : String} {c : Char} {cs : List Char}
    (hx : literalNumber.write x = name) (hname : name.toList = c :: cs) (hc : c.isDigit = true)
    (hword : ∀ c ∈ name.toList, FieldName.isWordChar c = true) : ∃ n : ℕ, name = toString n := by
  subst hx
  -- A numeral with a digit in front is that of a finite double without a sign.
  cases x with
  | undefined =>
    cases hname
    cases hc
  | infinite negative =>
    cases negative
    all_goals
      cases hname
      cases hc
  | finite negative x =>
    by_cases hzero : x.mantissa = 0
    · exact ⟨0, write_zero negative hzero⟩
    rw [toList_write negative hzero] at hname hword
    cases negative with
    | true =>
      cases hname
      cases hc
    | false =>
      have hdecimal : (literalNumber.decimalText x.shortest).toList = c :: cs := hname
      have hword : ∀ c ∈ (literalNumber.decimalText x.shortest).toList,
          FieldName.isWordChar c = true := hword
      -- In the plain range the numeral has no point, so it is the digits of a whole number.
      by_cases hrange : x.InPlainRange
      · obtain ⟨n, hn⟩ := exists_value_of_isPlain hword ((form_of_decimalText hzero).1.mpr hrange)
        have hdigits := decimalText_of_whole hzero hrange hn
        exact ⟨n, String.toList_inj.mp ((toList_write false hzero).trans
          (hdigits.trans String.toList_ofList.symm))⟩
      -- The sign of the exponent is no word character.
      · exact absurd ((form_of_decimalText hzero).2.mpr hrange) (not_isScientific_of_words hword)

/-- Of the names with a digit in front, a numeral says those that the double nearest to it is
written as. -/
theorem read?_eq_iff_of_isDigit {name : String} {c : Char} {cs : List Char}
    (hname : name.toList = c :: cs) (hc : c.isDigit = true)
    (hword : ∀ c ∈ name.toList, FieldName.isWordChar c = true) :
    read? name = some name ↔ ∃ n : ℕ, name = toString n ∧
      (Value.float (.ofDecimal false n 0)).literal = .ok name := by
  -- Of a name that is the digits of a number, it is known which double is read.
  have hnumeral : ∀ n : ℕ, name = toString n →
      (read? name = some name ↔ (Value.float (.ofDecimal false n 0)).literal = .ok name) := by
    intro n hn
    have hdigits : name.toList = Nat.toDigits 10 n := hn ▸ String.toList_ofList
    rw [read?_of_isDigit hname hc, hdigits, numeral?_toDigits]
    exact ⟨fun h => congrArg Except.ok (Option.some.inj h),
      fun h => congrArg some (Except.ok.inj h)⟩
  constructor
  · intro h
    have hread := h
    rw [read?_of_isDigit hname hc] at hread
    obtain ⟨x, -, hx⟩ := Option.map_eq_some_iff.mp hread
    -- No other name with a digit in front is the literal of a double.
    obtain ⟨n, hn⟩ := exists_toString_of_write hx hname hc hword
    exact ⟨n, hn, (hnumeral n hn).mp h⟩
  · rintro ⟨n, hn, hliteral⟩
    exact (hnumeral n hn).mpr hliteral

/-- Every whole number below `2 ^ 53` is a double, which is written as the number. -/
theorem literal_ofDecimal_of_lt {n : ℕ} (hn : n < 2 ^ 53) :
    (Value.float (.ofDecimal false n 0)).literal = .ok (toString n) := by
  obtain ⟨x, hx⟩ := Magnitude.exists_nearest?_of_lt hn
  have hattracts := (Magnitude.nearest?_eq_some_iff Nat.one_pos).mp hx
  rw [Nat.cast_one, div_one, ← Decimal.value_whole] at hattracts
  have hdouble := (Binary64.ofDecimal_eq_finite_iff false ⟨n, 0⟩ x).mpr hattracts
  have hsign : decide ((n : ℤ) < 0) = false := decide_eq_false (by omega)
  have hvalue := Magnitude.writtenValue_of_nearest? (n := n) (by omega) hx
  have htext := (write_eq_toString_iff (n := n) (by omega) x).mpr hvalue
  rw [hsign] at htext
  rw [hdouble]
  exact congrArg Except.ok htext

end PropertyName

namespace FieldName

/-! ## Keys -/

/-- A letter or an underscore, and after it digits too. -/
def IsIdentifier (name : String) : Prop :=
  ∃ c cs, name.toList = c :: cs ∧ PropertyName.isStart c = true ∧ ∀ d ∈ cs, isWordChar d = true

/-- The digits of a number, with no zero in front, that every double has room for. -/
def IsIndex (name : String) : Prop := ∃ n : ℕ, n ≤ 2 ^ 53 - 1 ∧ name = toString n

def StartsWithDigit (name : String) : Prop := ∃ c cs, name.toList = c :: cs ∧ c.isDigit = true

/-- The key is the name in quotes, or the name itself if it is an identifier or an index; and it is
read as the name. -/
structure Denotes (key name : String) : Prop where
  form : key = "'" ++ name ++ "'" ∨ key = name ∧ (IsIdentifier name ∨ IsIndex name)
  read?_eq : PropertyName.read? key = some name

theorem isBare_iff {name : String} :
    isBare name = true ↔ name ≠ "" ∧ ∀ c ∈ name.toList, isWordChar c = true := by
  simp [isBare]

theorem isIdentifier_or_startsWithDigit {name : String} (h : isBare name = true) :
    IsIdentifier name ∨ StartsWithDigit name := by
  obtain ⟨hne, hword⟩ := isBare_iff.mp h
  cases hname : name.toList with
  | nil => exact absurd (String.toList_eq_nil_iff.mp hname) hne
  | cons c cs =>
    rw [hname] at hword
    have hc := hword c (List.mem_cons_self ..)
    -- A word character is a digit or may begin an identifier.
    by_cases hdigit : c.isDigit = true
    · exact .inr ⟨c, cs, hname, hdigit⟩
    · refine .inl ⟨c, cs, hname, ?_, fun d hd => hword d (List.mem_cons_of_mem _ hd)⟩
      simpa [isWordChar, Char.isAlphanum, PropertyName.isStart, hdigit] using hc

theorem not_startsWithDigit_of_isIdentifier {name : String} (h : IsIdentifier name) :
    ¬ StartsWithDigit name := by
  obtain ⟨c, cs, hname, hstart, -⟩ := h
  rintro ⟨d, ds, hname', hdigit⟩
  rw [hname] at hname'
  cases hname'
  exact Bool.false_ne_true ((PropertyName.not_letter_of_isDigit hdigit).1.symm.trans hstart)

theorem read?_of_isIdentifier {name : String} (h : IsIdentifier name) :
    PropertyName.read? name = some name := by
  obtain ⟨c, cs, hname, hstart, hword⟩ := h
  rw [PropertyName.read?, hname]
  -- Its first character is neither a quote nor a digit.
  split
  · rename_i heq
    cases heq
  · rename_i heq
    cases heq
    cases hstart
  · rename_i heq
    cases heq
    rw [if_pos hstart, if_pos (List.all_eq_true.mpr hword)]

/-- A quote is no word character. -/
theorem isBare_quoted (name : String) : isBare ("'" ++ name ++ "'") = false := by
  rw [Bool.eq_false_iff]
  intro h
  have hquote := (isBare_iff.mp h).2 '\'' (by simp [String.toList_append])
  cases hquote

theorem quote_of_isBare {name : String} (h : isBare name = true) : quote name = name := if_pos h

theorem quote_of_not_isBare {name : String} (h : isBare name = false) :
    quote name = "'" ++ name ++ "'" := if_neg (Bool.eq_false_iff.mp h)

/-- Different names have different keys. -/
theorem quote_injective : Function.Injective quote := by
  intro a b h
  -- A bare key has no quotes in it, so the two ways of writing keys do not meet.
  have hbare : ∀ {a b : String}, isBare a = true → isBare b = false → quote a ≠ quote b := by
    intro a b ha hb h
    rw [quote_of_isBare ha, quote_of_not_isBare hb] at h
    rw [h, isBare_quoted] at ha
    cases ha
  cases ha : isBare a <;> cases hb : isBare b
  · rw [quote_of_not_isBare ha, quote_of_not_isBare hb] at h
    simpa [← String.toList_inj, String.toList_append] using h
  · exact absurd h.symm (hbare hb ha)
  · exact absurd h (hbare ha hb)
  · rwa [quote_of_isBare ha, quote_of_isBare hb] at h

/-- Different names have different keys. The key of a plain name denotes it, unless the name stands
bare with a digit in front and is no index. It is then read as another name or not at all, but for
numerals beyond the last index whose doubles are written as they are. -/
theorem quote_denotes_iff (name : String) :
    (∀ other, quote other = quote name → other = name) ∧
    ((∀ c ∈ name.toList, PropertyName.isPlain c = true) →
      (Denotes (quote name) name ↔ (isBare name = true → StartsWithDigit name → IsIndex name)) ∧
      (isBare name = true → StartsWithDigit name →
        (PropertyName.read? (quote name) = some name ↔ ∃ n : ℕ, name = toString n ∧
          (Value.float (.ofDecimal false n 0)).literal = .ok name))) := by
  refine ⟨fun other h => quote_injective h, fun hplain => ?_⟩
  -- A bare name with a digit in front is a numeral, or no property name at all.
  have hnumeral : isBare name = true → StartsWithDigit name →
      (PropertyName.read? (quote name) = some name ↔ ∃ n : ℕ, name = toString n ∧
        (Value.float (.ofDecimal false n 0)).literal = .ok name) := by
    rintro hbare ⟨c, cs, hname, hdigit⟩
    rw [quote_of_isBare hbare]
    exact PropertyName.read?_eq_iff_of_isDigit hname hdigit (isBare_iff.mp hbare).2
  refine ⟨⟨fun h hbare hdigit => ?_, fun h => ?_⟩, hnumeral⟩
  -- Of the three forms of a key, two are out of the question for such a name.
  · rcases h.form with hquoted | ⟨-, hidentifier | hindex⟩
    · rw [quote_of_isBare hbare] at hquoted
      rw [hquoted, isBare_quoted] at hbare
      cases hbare
    · exact absurd hdigit (not_startsWithDigit_of_isIdentifier hidentifier)
    · exact hindex
  -- In quotes every plain name is read back, and bare an identifier is. What is left are indices,
  -- each of which is the literal of its double.
  · cases hbare : isBare name with
    | false =>
      rw [quote_of_not_isBare hbare]
      exact ⟨.inl rfl, PropertyName.read?_quoted hplain⟩
    | true =>
      rcases isIdentifier_or_startsWithDigit hbare with hidentifier | hdigit
      · rw [quote_of_isBare hbare]
        exact ⟨.inr ⟨rfl, .inl hidentifier⟩, read?_of_isIdentifier hidentifier⟩
      · have hindex := h hbare hdigit
        refine ⟨.inr ⟨quote_of_isBare hbare, .inr hindex⟩, (hnumeral hbare hdigit).mpr ?_⟩
        obtain ⟨n, hn, hname⟩ := hindex
        rw [hname]
        exact ⟨n, rfl, PropertyName.literal_ofDecimal_of_lt (by omega)⟩

/-- A name that is no property name at all stands bare, and so does one that says another name. -/
theorem quote_not_denotes :
    (quote "1a" = "1a" ∧ PropertyName.read? "1a" = none ∧ ¬ Denotes (quote "1a") "1a") ∧
      (quote "1e3" = "1e3" ∧ PropertyName.read? "1e3" = some "1000") := by
  have hread : PropertyName.read? "1a" = none := by decide +kernel
  have hquote : quote "1a" = "1a" := by decide +kernel
  refine ⟨⟨hquote, hread, fun h => ?_⟩, by decide +kernel, by decide +kernel⟩
  have hsome := h.read?_eq
  rw [hquote, hread] at hsome
  cases hsome

/-- The last index stands bare, and a name with brackets in quotes. -/
theorem quote_denotes_lastIndex :
    (isBare "9007199254740991" = true ∧ Denotes (quote "9007199254740991") "9007199254740991") ∧
      isBare "page[size]" = false ∧ Denotes (quote "page[size]") "page[size]" := by
  have hbare : isBare "page[size]" = false := by decide +kernel
  refine ⟨⟨by decide +kernel, ?_⟩, hbare, ?_⟩
  · apply ((quote_denotes_iff _).2 (List.all_eq_true.mp (by decide +kernel))).1.mpr
    exact fun _ _ => ⟨9007199254740991, by decide, by decide +kernel⟩
  · apply ((quote_denotes_iff _).2 (List.all_eq_true.mp (by decide +kernel))).1.mpr
    intro h
    rw [hbare] at h
    cases h

end FieldName

end RouteRules
