import RouteRules.Value.Text

/-!
# Keys

What can identify an entry of a table. Keys are compared by what they denote: `true`, `1` and
`1.0` are one key, while the undefined number is no key's equal, its own included.
-/

namespace RouteRules

/-- A scalar in the role of a key. -/
structure Key where
  scalar : Scalar

namespace Scalar

/-- The whole number that a scalar counts as. -/
def whole? : Scalar → Option Int
  | bool b => some (if b then 1 else 0)
  | int n => some n
  | _ => none

/-- Whether two scalars denote the same thing. -/
def same (s t : Scalar) : Bool :=
  match s.whole?, t.whole? with
  | some m, some n => m == n
  | some m, none => match t with
    | float y => y.sameAsInt m
    | _ => false
  | none, some n => match s with
    | float x => x.sameAsInt n
    | _ => false
  | none, none => match s, t with
    | null, null => true
    | float x, float y => x.same y
    | text a, text b => a == b
    | _, _ => false

end Scalar

namespace Key

instance : BEq Key where
  beq k l := k.scalar.same l.scalar

def text (s : String) : Key := ⟨.text s⟩

def value (k : Key) : Value := .scalar k.scalar

def display (k : Key) : String := k.value.display

end Key

/-- The key that a value is; lists and objects are none. -/
def Value.key? : Value → Option Key
  | scalar s => some ⟨s⟩
  | _ => none

end RouteRules
