import RouteRules.Rule.Vocabulary
import RouteRules.Schema.Basic

/-!
# The rules of a schema

Which rules a schema calls for: the constraints of texts and numbers, and the modifiers that every
field may have.
-/

namespace RouteRules

/-- The constructors of the values that are written as one chain of rules. -/
inductive Base where
  | string
  | number
deriving DecidableEq

/-- The rule that a chain begins with. -/
def Base.rule (validator : String) : Base → Rule
  | string => .stringType validator
  | number => .numberType validator

/-- The constraints of a text: format, pattern, allow-list. -/
def stringConstraints (formats : List Value) (pattern : Value) (members : Option (List Value)) :
    Except Fault (List Rule) := do
  let format := (TextFormat.select formats).toList.map Rule.format
  let patterns := if pattern.isNull then [] else [Rule.pattern pattern.display]
  let allowed ← match members with
    | none => pure []
    | some vs => pure [Rule.members (← vs.mapM Rule.memberText)]
  return format ++ patterns ++ allowed

/-- A limit of a number; null is none. -/
def limitRule (rule : String → Rule) (limit : Value) : Except Fault (List Rule) :=
  if limit.isNull then .ok [] else (fun t => [rule t]) <$> limit.literal

/-- The constraints of a number: wholeness, minimum, maximum. -/
def numberConstraints (whole : Bool) (minimum maximum : Value) : Except Fault (List Rule) := do
  let lower ← limitRule .minimum minimum
  let upper ← limitRule .maximum maximum
  return (if whole then [.integer] else []) ++ lower ++ upper

/-- The modifiers of a field: required, description, and the appended text if `withAppend`. A
description counts unless it is null, an appended text unless it is blank. -/
def Info.modifiers (info : Info) (withAppend : Bool) : List Rule :=
  (if info.isRequired then [.required] else [])
    ++ (if info.description.isNull then [] else [.description info.description.display])
    ++ (if withAppend && !info.append.isBlank then [.append info.append.display] else [])

/-- The rules of a text or a number before its modifiers; other schemas have none. -/
def Schema.ownRules (validator : String) : Schema → Except Fault (List Rule)
  | .string _ formats pattern members =>
    (Base.string.rule validator :: ·) <$> stringConstraints formats pattern members
  | .number _ whole minimum maximum =>
    (Base.number.rule validator :: ·) <$> numberConstraints whole minimum maximum
  | _ => .ok []

end RouteRules
