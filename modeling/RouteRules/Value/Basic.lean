import RouteRules.Numeral.Binary64

/-!
# Document values

The data that documents, settings and schemas are made of: scalars, lists, and objects whose entries
keep the order in which they were declared. Nothing is known in advance about the shape of a
document, so every field of it is a `Value`.

## Main definitions

- `Scalar`, `Value`: the data.
- `Value.isBlank`: null, false, zero and what is empty.
- `Value.field`: the value of a field, null when the field is absent.
-/

namespace RouteRules

/-- A value without parts. -/
inductive Scalar where
  | null
  | bool (b : Bool)
  | int (n : Int)
  | float (x : Binary64)
  | text (s : String)
deriving DecidableEq

/-- A document value. -/
inductive Value where
  | scalar (s : Scalar)
  | list (items : List Value)
  | object (entries : List (String × Value))

namespace Scalar

/-- Null, false, zero and the empty text. -/
def isBlank : Scalar → Bool
  | null => true
  | bool b => !b
  | int n => n == 0
  | float x => x.isZero
  | text s => s == ""

end Scalar

namespace Value

@[match_pattern] abbrev null : Value := .scalar .null

@[match_pattern] abbrev bool (b : Bool) : Value := .scalar (.bool b)

@[match_pattern] abbrev int (n : Int) : Value := .scalar (.int n)

@[match_pattern] abbrev float (x : Binary64) : Value := .scalar (.float x)

@[match_pattern] abbrev text (s : String) : Value := .scalar (.text s)

instance : Inhabited Value := ⟨null⟩

/-- Blank values are those that stand for nothing: blank scalars, the empty list, the empty
object. -/
def isBlank : Value → Bool
  | scalar s => s.isBlank
  | list items => items.isEmpty
  | object entries => entries.isEmpty

/-- The value itself, or `default` when it is blank. -/
def orElse (v default : Value) : Value := if v.isBlank then default else v

def isNull : Value → Bool
  | null => true
  | _ => false

theorem isNull_iff {v : Value} : v.isNull = true ↔ v = .null := by
  cases v with
  | scalar s => cases s <;> simp [isNull]
  | list items => simp [isNull]
  | object entries => simp [isNull]

/-- The entries of an object; other values have none. -/
def entries : Value → List (String × Value)
  | object entries => entries
  | _ => []

/-- The value of the field `key`, null when there is none. -/
def field (entries : List (String × Value)) (key : String) : Value :=
  (entries.lookup key).getD null

/-- The elements that a walk over the value meets: the items of a list, the characters of a text,
the keys of an object. Nothing else can be walked over. -/
def elements? : Value → Option (List Value)
  | list items => some items
  | object entries => some (entries.map fun e => text e.1)
  | text s => some (s.toList.map fun c => text (String.singleton c))
  | _ => none

/-! ## Equality -/

mutual

/-- Decides whether two values are the same in every part. -/
def decEq : (v w : Value) → Decidable (v = w)
  | scalar s, scalar t =>
    if h : s = t then isTrue (h ▸ rfl) else isFalse fun e => h (Value.scalar.inj e)
  | list vs, list ws =>
    match decEqItems vs ws with
    | isTrue h => isTrue (h ▸ rfl)
    | isFalse h => isFalse fun e => h (Value.list.inj e)
  | object vs, object ws =>
    match decEqEntries vs ws with
    | isTrue h => isTrue (h ▸ rfl)
    | isFalse h => isFalse fun e => h (Value.object.inj e)
  | scalar _, list _ => isFalse nofun
  | scalar _, object _ => isFalse nofun
  | list _, scalar _ => isFalse nofun
  | list _, object _ => isFalse nofun
  | object _, scalar _ => isFalse nofun
  | object _, list _ => isFalse nofun

/-- Decides whether two lists of values are the same. -/
def decEqItems : (vs ws : List Value) → Decidable (vs = ws)
  | [], [] => isTrue rfl
  | v :: vs, w :: ws =>
    match decEq v w, decEqItems vs ws with
    | isTrue h, isTrue hs => isTrue (h ▸ hs ▸ rfl)
    | isFalse h, _ => isFalse fun e => h (List.cons.inj e).1
    | _, isFalse hs => isFalse fun e => hs (List.cons.inj e).2
  | [], _ :: _ => isFalse nofun
  | _ :: _, [] => isFalse nofun

/-- Decides whether two lists of entries are the same. -/
def decEqEntries : (vs ws : List (String × Value)) → Decidable (vs = ws)
  | [], [] => isTrue rfl
  | (k, v) :: vs, (l, w) :: ws =>
    if hk : k = l then
      match decEq v w, decEqEntries vs ws with
      | isTrue h, isTrue hs => isTrue (hk ▸ h ▸ hs ▸ rfl)
      | isFalse h, _ => isFalse fun e => h (Prod.mk.inj (List.cons.inj e).1).2
      | _, isFalse hs => isFalse fun e => hs (List.cons.inj e).2
    else isFalse fun e => hk (Prod.mk.inj (List.cons.inj e).1).1
  | [], _ :: _ => isFalse nofun
  | _ :: _, [] => isFalse nofun

end

instance : DecidableEq Value := decEq

end Value

end RouteRules
