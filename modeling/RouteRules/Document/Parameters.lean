import RouteRules.Fault
import RouteRules.Value.Key

/-!
# Parameters of a path and of its operations

A path can state parameters for all its operations. An operation that declares a parameter of the
same name and location overrides it.
-/

namespace RouteRules

/-- What identifies a parameter within an operation: its name and its location. -/
def parameterId (v : Value) : Except Fault (Key × Key) := do
  let entries ← v.asObject
  match (Value.field entries "name").key?, (Value.field entries "in").key? with
  | some name, some location => return (name, location)
  | _, _ => throw .compositeKey

/-- The parameters that are not among the declared ones. -/
def undeclared (declared : List (Key × Key)) : List Value → Except Fault (List Value)
  | [] => .ok []
  | p :: rest => do
    let id ← parameterId p
    -- The rest is looked at in any case, so that a fault in it is not missed.
    let kept ← undeclared declared rest
    return if declared.contains id then kept else p :: kept

/-- The parameters of an operation, from what its path and it itself state as parameters: those of
the path that the operation does not declare, then its own. -/
def mergeParameters (shared own : Value) : Except Fault (List Value) := do
  let stated ← own.asElements
  let declared ← stated.mapM parameterId
  let inherited ← undeclared declared (← shared.asElements)
  return inherited ++ stated

end RouteRules
