import RouteRules.Numeral.Decimal

/-!
# Layout of decimals

A `Layout` records how shortest decimals are written: where positional writing ends, and how whole
numbers, exponents, zero and the special values look. `Layout.write` is one function for all
layouts.
-/

namespace RouteRules

/-- The decisions of a number format. -/
structure Layout where
  /-- Decimals whose leading power of ten is at least this are written positionally … -/
  plainFrom : Int
  /-- … as long as it is below this. -/
  plainBelow : Int
  /-- What follows the digits of a positionally written whole number. -/
  wholeTail : String
  /-- The least number of digits of an exponent. -/
  exponentWidth : Nat
  /-- Whether the negative zero keeps its sign. -/
  signedZero : Bool
  infinity : String
  undefined : String

namespace Layout

/-- The text of an exponent: its sign, and at least `exponentWidth` digits. -/
def exponentText (l : Layout) (e : Int) : String :=
  let digits := Nat.toDigits 10 e.natAbs
  let padding := List.replicate (l.exponentWidth - digits.length) '0'
  (if e < 0 then "-" else "+") ++ String.ofList (padding ++ digits)

/-- Digits with a leading power of ten `e`, written out in full. -/
def positional (l : Layout) (digits : List Char) (e : Int) : String :=
  if e < 0 then
    -- The point comes before all digits.
    String.ofList ('0' :: '.' :: List.replicate (-e - 1).toNat '0' ++ digits)
  else if digits.length ≤ e.toNat + 1 then
    -- The point would come after all digits.
    String.ofList (digits ++ List.replicate (e.toNat + 1 - digits.length) '0') ++ l.wholeTail
  else
    String.ofList (digits.take (e.toNat + 1) ++ '.' :: digits.drop (e.toNat + 1))

/-- Digits with a leading power of ten `e`, written as a mantissa and an exponent. -/
def scientific (l : Layout) (digits : List Char) (e : Int) : String :=
  -- A single digit takes no point.
  let mantissa := match digits with
    | lead :: next :: rest => lead :: '.' :: next :: rest
    | short => short
  String.ofList mantissa ++ "e" ++ l.exponentText e

/-- The text of a positive decimal. -/
def decimalText (l : Layout) (d : Decimal) : String :=
  let e := d.leadExponent
  if l.plainFrom ≤ e ∧ e < l.plainBelow then l.positional d.toDigits e
  else l.scientific d.toDigits e

/-- The text of a magnitude. -/
def magnitudeText (l : Layout) (x : Magnitude) : String :=
  if x.mantissa = 0 then "0" ++ l.wholeTail else l.decimalText x.shortest

/-- The text of a double. -/
def write (l : Layout) : Binary64 → String
  | .finite negative x =>
    if negative && (l.signedZero || x.mantissa != 0) then "-" ++ l.magnitudeText x
    else l.magnitudeText x
  | .infinite negative => if negative then "-" ++ l.infinity else l.infinity
  | .undefined => l.undefined

end Layout

end RouteRules
