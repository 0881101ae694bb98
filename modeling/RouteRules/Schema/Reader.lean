import RouteRules.Schema.Facets

/-!
# Reading schemas

`Schema.read` brings a document's schema into normal form. References are kept as they are.
Nothing beside a reference is looked at, nor is anything that the type of the schema does not call
for.
-/

namespace RouteRules.Schema

mutual

/-- The schema that a value states at a place. -/
def read (s : Settings) (place : Place) (v : Value) : Except Fault Schema :=
  match v with
  | .object entries => do
    let facets := Facets.ofEntries entries
    let info ← facets.info s place
    -- A reference is the whole schema, whatever stands beside it.
    if let some target := facets.reference? then
      return .reference info target
    match facets.type with
    | .string => return .string info facets.formats (facets.get "pattern") (← facets.members)
    | .number whole => return .number info whole (facets.get "minimum") (facets.get "maximum")
    | .array =>
      match _found : facets.find? "items" with
      | none | some .null => return .bareArray info
      | some items => return .array info (← read s { path := place.itemsPath } items)
    | .object =>
      match _found : facets.find? "properties" with
      | none | some .null => return .bareObject info
      | some (.object properties) =>
        return .object info (← readProperties s place facets.requiredNames properties)
      | some _ => throw .noFields
    | .other kind => return .unsupported info kind
  | _ => .error .noFields
termination_by sizeOf v
decreasing_by
  · exact Facets.sizeOf_find?_lt _found
  · have := Facets.sizeOf_find?_lt _found
    simp only [Value.object.sizeOf_spec] at this ⊢
    omega

/-- The properties of the object at `place`, each named by its key. -/
def readProperties (s : Settings) (place : Place) (required : List Value)
    (properties : List (String × Value)) : Except Fault (List Schema) :=
  match properties with
  | [] => .ok []
  | (key, v) :: rest => do
    let property ← read s
      { path := place.propertyPath key
        name := .text key
        listed := .bool (required.contains (.text key)) } v
    return property :: (← readProperties s place required rest)
termination_by sizeOf properties

end

end RouteRules.Schema
