import RouteRules.Value.Basic
import RouteRules.Numeral.Layout
import RouteRules.Text.Quoted

/-!
# The text of a value

`Value.display` is what a value looks like where a text is expected: a text stands for itself, any
other value is spelled out, and the texts inside lists and objects are quoted.
-/

namespace RouteRules

/-- Numbers in spelled-out values: positional from `0.0001` up to and without `10 ^ 16`, whole
numbers with a fraction of zero. -/
def spelledNumber : Layout where
  plainFrom := -4
  plainBelow := 16
  wholeTail := ".0"
  exponentWidth := 2
  signedZero := true
  infinity := "inf"
  undefined := "nan"

/-- A scalar spelled out, texts in quotes. -/
def Scalar.spell : Scalar → String
  | null => "None"
  | bool b => if b then "True" else "False"
  | int n => toString n
  | float x => spelledNumber.write x
  | text s => Quoted.encode s

namespace Value

mutual

/-- A value spelled out, texts in quotes. -/
def spell : Value → String
  | scalar s => s.spell
  | list items => "[" ++ ", ".intercalate (spellItems items) ++ "]"
  -- The braces of an object.
  | object entries => "\x7b" ++ ", ".intercalate (spellEntries entries) ++ "\x7d"

/-- The items of a list, each spelled out. -/
def spellItems : List Value → List String
  | [] => []
  | v :: vs => spell v :: spellItems vs

/-- The entries of an object, each spelled out after its key. -/
def spellEntries : List (String × Value) → List String
  | [] => []
  | (k, v) :: es => (Quoted.encode k ++ ": " ++ spell v) :: spellEntries es

end

/-- The text of a value. -/
def display : Value → String
  | text s => s
  | v => v.spell

end Value

end RouteRules
