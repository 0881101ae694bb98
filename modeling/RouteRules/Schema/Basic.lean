import RouteRules.Value.Basic

/-!
# Schemas

A `Schema` is the normal form of a parameter, a property or a body. Facets that a document may state
in two places have been merged, so each is found in one place only.

A facet keeps the value that the document gives it, whatever that is; null stands for an absent one.
-/

namespace RouteRules

/-- What every schema has, whatever its type. -/
structure Info where
  /-- The name of the field; null for the items of an array. -/
  name : Value
  /-- The mark of a required field; any mark that is not blank counts. -/
  required : Value
  description : Value
  /-- The text that is appended to the expression. -/
  append : Value
  /-- The text that stands in place of the expression. -/
  replacement : Value
  /-- Where the schema stands in its document. -/
  path : Value
deriving DecidableEq

/-- Whether the field has to be given. -/
def Info.isRequired (info : Info) : Bool := !info.required.isBlank

/-- A reference to a component. -/
structure Reference where
  path : Value
  /-- The name that the component is given when it is read. -/
  operationId : Value
deriving DecidableEq

/-- A normalised schema. -/
inductive Schema where
  | string (info : Info) (formats : List Value) (pattern : Value) (members : Option (List Value))
  /-- A number, `whole` if it is to be an integer. -/
  | number (info : Info) (whole : Bool) (minimum maximum : Value)
  | array (info : Info) (items : Schema)
  /-- An array that does not say what its items are. -/
  | bareArray (info : Info)
  /-- An object with its properties in the order of declaration. -/
  | object (info : Info) (properties : List Schema)
  /-- An object that declares no properties, not even an empty set of them. -/
  | bareObject (info : Info)
  | reference (info : Info) (target : Reference)
  /-- A schema whose type is absent or not supported. -/
  | unsupported (info : Info) (kind : Value)

namespace Schema

def info : Schema → Info
  | string info _ _ _ => info
  | number info _ _ _ => info
  | array info _ => info
  | bareArray info => info
  | object info _ => info
  | bareObject info => info
  | reference info _ => info
  | unsupported info _ => info

end Schema

end RouteRules
