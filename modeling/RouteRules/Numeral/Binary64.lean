/-!
# Binary floating-point numbers of 64 bits

A finite number is a sign and a magnitude, and a magnitude is `mantissa * 2 ^ shift` times the least
positive double, which is `2 ^ (-1074)`. Written as a fraction, a magnitude takes only natural
numbers, and so does all arithmetic on it.

## Main definitions

- `Magnitude`: a 53-bit mantissa and a shift, with one representation for each value.
- `Magnitude.nearest?`: the magnitude nearest to a fraction, halves to the even mantissa.
- `Binary64`: finite numbers, the two infinities and the undefined value.
- `Binary64.ofDecimal`, `Binary64.ofInt?`: the doubles nearest to decimal numerals and to integers.
-/

namespace RouteRules

/-- The quotient `num / den` rounded to a natural number, halves to the even neighbour. -/
def roundHalfEven (num den : Nat) : Nat :=
  let q := num / den
  let r := num % den
  if 2 * r < den then q
  else if den < 2 * r then q + 1
  else q + q % 2

/-- A non-negative finite double, `mantissa * 2 ^ shift * 2 ^ (-1074)`. -/
structure Magnitude where
  mantissa : Nat
  shift : Nat
  mantissa_lt : mantissa < Nat.pow 2 53
  shift_le : shift ≤ 2045
  /-- The mantissa uses its top bit unless the value is too small for that. -/
  normal : shift = 0 ∨ Nat.pow 2 52 ≤ mantissa
deriving DecidableEq

namespace Magnitude

def zero : Magnitude := ⟨0, 0, by decide, by decide, .inl rfl⟩

/-- The numerator of the value as a fraction. -/
def num (x : Magnitude) : Nat := x.mantissa * Nat.pow 2 (x.shift - 1074)

/-- The denominator of the value as a fraction. -/
def den (x : Magnitude) : Nat := Nat.pow 2 (1074 - x.shift)

/-- The magnitude with this mantissa and shift, if there is one. -/
def ofScaled? (mantissa shift : Nat) : Option Magnitude :=
  if h : mantissa < Nat.pow 2 53 ∧ shift ≤ 2045 ∧ (shift = 0 ∨ Nat.pow 2 52 ≤ mantissa) then
    some ⟨mantissa, shift, h.1, h.2.1, h.2.2⟩
  else none

/-- The fraction `num / den` measured in units of `2 ^ shift * 2 ^ (-1074)`, again as a fraction. -/
def inUnits (num den shift : Nat) : Nat × Nat :=
  (num * Nat.pow 2 (1074 - shift), den * Nat.pow 2 (shift - 1074))

/-- The shift under which the mantissa nearest to `num / den` fills 53 bits, or the least one. -/
def shiftFor (num den : Nat) : Nat :=
  -- The logarithms give the number of bits up to one.
  let guess := num.log2 + 1074 - (den.log2 + 53)
  let scaled := inUnits num den guess
  if scaled.1 / scaled.2 < Nat.pow 2 53 then guess else guess + 1

/-- The magnitude nearest to `num / den`, halves to the even mantissa; `none` when it lies beyond
the largest double. -/
def nearest? (num den : Nat) : Option Magnitude :=
  if num = 0 then some zero
  else
    let shift := shiftFor num den
    let scaled := inUnits num den shift
    let mantissa := roundHalfEven scaled.1 scaled.2
    -- Rounding up can take one bit more than the mantissa holds.
    if mantissa = Nat.pow 2 53 then ofScaled? (Nat.pow 2 52) (shift + 1)
    else ofScaled? mantissa shift

end Magnitude

/-- A double: finite with a sign (zero has two), infinite with a sign, or undefined. -/
inductive Binary64 where
  | finite (negative : Bool) (magnitude : Magnitude)
  | infinite (negative : Bool)
  | undefined
deriving DecidableEq

namespace Binary64

/-- Whether the number is a zero of either sign. -/
def isZero : Binary64 → Bool
  | finite _ x => x.mantissa == 0
  | _ => false

/-- The double nearest to an integer; `none` when it lies beyond the largest double. -/
def ofInt? (n : Int) : Option Binary64 :=
  (Magnitude.nearest? n.natAbs 1).map (finite (decide (n < 0)))

/-- The double nearest to `digits * 10 ^ exponent`. What lies beyond the largest double becomes
infinite. -/
def ofDecimal (negative : Bool) (digits : Nat) (exponent : Int) : Binary64 :=
  -- Far outside the range of doubles the powers of ten are not computed.
  let lead : Int := exponent + (Nat.toDigits 10 digits).length
  if digits = 0 ∨ lead < -400 then finite negative .zero
  else if 400 < lead then infinite negative
  else
    let num := digits * Nat.pow 10 exponent.toNat
    match Magnitude.nearest? num (Nat.pow 10 (-exponent).toNat) with
    | some x => finite negative x
    | none => infinite negative

/-- Whether the double and the integer denote the same number. -/
def sameAsInt : Binary64 → Int → Bool
  | finite negative x, n =>
    n.natAbs * x.den == x.num && (n == 0 || decide (n < 0) == negative)
  | _, _ => false

/-- Whether two doubles denote the same number: the two zeros do, the undefined value is like
nothing. -/
def same : Binary64 → Binary64 → Bool
  | finite s x, finite t y => x == y && (s == t || x.mantissa == 0)
  | infinite s, infinite t => s == t
  | _, _ => false

end Binary64

end RouteRules
