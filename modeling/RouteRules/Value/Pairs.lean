import RouteRules.Fault
import RouteRules.Table
import RouteRules.Value.Key

/-!
# Tables in documents

A table can be stated as an object, or as a sequence of pairs of a key and a value.
-/

namespace RouteRules.Value

/-- The key and the value that the two elements of a value make up. -/
def asPair (v : Value) : Except Fault (Key × Value) := do
  match ← v.asElements with
  | [name, content] =>
    match name.key? with
    | some key => return (key, content)
    | none => throw .compositeKey
  | _ => throw .notAPair

/-- The table that a value states. -/
def asTable : Value → Except Fault (Table Key Value)
  | object entries => .ok ⟨entries.map fun e => (Key.text e.1, e.2)⟩
  | v => do
    let pairs ← (← v.asElements).mapM asPair
    return Table.ofList pairs

end RouteRules.Value
