import RouteRules.Numeral.Binary64

/-!
# Shortest decimals

Among the decimals that a reader rounds back to a given double, `Magnitude.shortest` is one with the
fewest digits, and of those the nearest.

All comparisons are exact: the decimals that round to a magnitude fill an interval whose ends lie
halfway to its two neighbours, and both ends belong to it exactly when the mantissa is even.
-/

namespace RouteRules

/-- The number `digits * 10 ^ exponent`. -/
structure Decimal where
  digits : Nat
  exponent : Int
deriving DecidableEq

namespace Decimal

/-- The decimal digits, most significant first. -/
def toDigits (d : Decimal) : List Char := Nat.toDigits 10 d.digits

/-- The power of ten of the leading digit. -/
def leadExponent (d : Decimal) : Int := d.exponent + d.toDigits.length - 1

/-- The same number without trailing zeros in its digits. -/
def strip (d : Decimal) : Decimal :=
  if d.digits ≠ 0 ∧ d.digits % 10 = 0 then strip ⟨d.digits / 10, d.exponent + 1⟩ else d
termination_by d.digits
decreasing_by rename_i h; exact Nat.div_lt_self (Nat.pos_of_ne_zero h.1) (by decide)

/-- Compares the decimal with the fraction `num / den`. -/
def compareTo (d : Decimal) (num den : Nat) : Ordering :=
  compare (d.digits * Nat.pow 10 d.exponent.toNat * den) (num * Nat.pow 10 (-d.exponent).toNat)

end Decimal

namespace Magnitude

/-- Whether the neighbour below is only half as far away as the neighbour above. -/
def narrowBelow (x : Magnitude) : Bool := x.mantissa == Nat.pow 2 52 && x.shift != 0

/-- The lower end of the interval that rounds to `x`, as a numerator over `4 * x.den`. -/
def lowerEnd (x : Magnitude) : Nat :=
  (4 * x.mantissa - if x.narrowBelow then 1 else 2) * Nat.pow 2 (x.shift - 1074)

/-- The upper end of the interval that rounds to `x`, as a numerator over `4 * x.den`. -/
def upperEnd (x : Magnitude) : Nat := (4 * x.mantissa + 2) * Nat.pow 2 (x.shift - 1074)

/-- Whether a decimal rounds to `x`. -/
def readsBack (x : Magnitude) (d : Decimal) : Bool :=
  let even := x.mantissa % 2 == 0
  let low := d.compareTo x.lowerEnd (4 * x.den)
  let high := d.compareTo x.upperEnd (4 * x.den)
  (low == .gt || even && low == .eq) && (high == .lt || even && high == .eq)

/-- The exact value, with as many digits as that takes. A half is five tenths. -/
def exact (x : Magnitude) : Decimal :=
  ⟨x.num * Nat.pow 5 (1074 - x.shift), -((1074 - x.shift : Nat) : Int)⟩

/-- The least power of ten above `x`, for `x` positive. -/
def scale (x : Magnitude) : Int := x.exact.leadExponent + 1

/-- The value in units of `10 ^ grid`, as a fraction. -/
def onGrid (x : Magnitude) (grid : Int) : Nat × Nat :=
  (x.num * Nat.pow 10 (-grid).toNat, x.den * Nat.pow 10 grid.toNat)

/-- The multiple of `10 ^ grid` that rounds to `x`, if there is one. Of two the nearer is taken,
and the even one when both are equally near. -/
def pointOn? (x : Magnitude) (grid : Int) : Option Decimal :=
  let units := x.onGrid grid
  let below := units.1 / units.2
  match x.readsBack ⟨below, grid⟩, x.readsBack ⟨below + 1, grid⟩ with
  | true, true => some ⟨roundHalfEven units.1 units.2, grid⟩
  | true, false => some ⟨below, grid⟩
  | false, true => some ⟨below + 1, grid⟩
  | false, false => none

/-- The decimal with the fewest digits that rounds to `x`, without trailing zeros. Grids are tried
from coarse to fine; seventeen digits are enough to tell any two doubles apart. -/
def shortest (x : Magnitude) : Decimal :=
  (((List.range 17).findSome? fun (n : Nat) => x.pointOn? (x.scale - (n + 1))).getD x.exact).strip

end Magnitude

end RouteRules
