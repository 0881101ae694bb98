import RouteRules.Fault

/-!
# Literals

How a value is written in generated code. Numbers take the fewest digits that identify them; an
integer is written out in full as long as it has at most 21 digits. Texts stand for themselves,
and lists and objects are spelled out as in any text.
-/

namespace RouteRules

/-- Numbers in generated code: positional from `0.000001` up to and without `10 ^ 21`, no fraction
on whole numbers, one zero. -/
def literalNumber : Layout where
  plainFrom := -6
  plainBelow := 21
  wholeTail := ""
  exponentWidth := 1
  signedZero := false
  infinity := "Infinity"
  undefined := "NaN"

/-- The literal of an integer. From `10 ^ 21` on it is that of the nearest double. -/
def intLiteral (n : Int) : Except Fault String :=
  if n.natAbs < Nat.pow 10 21 then .ok (toString n)
  else match Binary64.ofInt? n with
    | some x => .ok (literalNumber.write x)
    | none => .error .beyondDoubles

/-- The literal of a value. -/
def Value.literal : Value → Except Fault String
  | .null => .ok "null"
  | .bool b => .ok (if b then "true" else "false")
  | .int n => intLiteral n
  | .float x => .ok (literalNumber.write x)
  | v => .ok v.display

end RouteRules
