import RouteRules.Value.Text

/-!
# Faults

Why a compilation, or a step on the way to it, came to no result. A fault ends the whole
compilation: nothing is returned beside it.

## Main definitions

- `Fault`: one constructor for each cause.
- `Fault.message?`: the wording of the faults that are reported with a text.
-/

namespace RouteRules

/-- The cause of a failure. -/
inductive Fault where
  /-- There is no route to compile. -/
  | noRoute
  /-- An array does not say what its items are. -/
  | noItems (array : Value)
  /-- An object, or the component a reference leads to, has no properties. -/
  | noProperties (owner : Value)
  /-- A reference names a component that is not in the catalogue. -/
  | unknownComponent (name : Value)
  /-- A schema has a type for which there is no expression. -/
  | unsupportedType (field kind : Value)
  /-- A failure with a wording of its own. -/
  | failed (wording : String)
  /-- Something was looked up that is not there. -/
  | missing (wording : String)
  /-- The fields of something that is not an object were asked for. -/
  | noFields
  /-- A reference is not a text. -/
  | referenceNotText
  /-- A setting that cannot be assigned was assigned. -/
  | fixedSetting
  /-- A text was needed to put a larger text together. -/
  | textExpected
  /-- An object was needed. -/
  | objectExpected
  /-- Something without elements was walked over. -/
  | noElements
  /-- A list or an object was used as a key. -/
  | compositeKey
  /-- A rule was given too many or too few arguments. -/
  | wrongArity
  /-- Settings that have lost their export were exported, or were given a new nature. -/
  | brokenSettings
  /-- An entry of a table was not a pair. -/
  | notAPair
  /-- An integer lies beyond the largest double. -/
  | beyondDoubles
  /-- Following references came back to a component that was still being expanded. -/
  | endlessReference
deriving DecidableEq

namespace Fault

/-- The wording of a fault, where it is reported with one. -/
def message? : Fault → Option String
  | noRoute => some "No route was passed."
  | noItems array => some ("Array definition of '" ++ array.display ++ "' doesn't have items.")
  | noProperties owner =>
    some ("Object definition of '" ++ owner.display ++ "' doesn't have properties.")
  | unknownComponent name => some ("Component " ++ name.display ++ " not found.")
  | unsupportedType field kind =>
    some ("Unexpected parameter type " ++ kind.display ++ " in parameter named "
      ++ field.display ++ ".")
  | failed wording => some wording
  | missing wording => some wording
  | _ => none

end Fault

/-! ## Values where a certain kind is needed -/

namespace Value

/-- The entries of a value whose fields are asked for. -/
def asObject : Value → Except Fault (List (String × Value))
  | object entries => .ok entries
  | _ => .error .noFields

/-- The elements of a value that is walked over. -/
def asElements (v : Value) : Except Fault (List Value) :=
  match v.elements? with
  | some items => .ok items
  | none => .error .noElements

end Value

end RouteRules
