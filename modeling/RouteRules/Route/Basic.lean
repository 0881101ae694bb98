import RouteRules.Compilation

/-!
# Routes

A route is one operation of a document: its parameters, each with the location that it is sent in,
and its body, if it has one of the content type that the settings name.

## Main definitions

- `Route.read`: the route that an operation states.
-/

namespace RouteRules

/-- A parameter and where it is sent. -/
structure Parameter where
  location : Value
  schema : Schema

/-- An operation in normal form. -/
structure Route where
  /-- The parameters in the order of declaration. -/
  parameters : List Parameter
  body : Option Schema
  operationId : Value
  description : Value

namespace Route

/-- The parameter with the given position among its siblings. -/
def readParameter (s : Settings) (position : Nat) (v : Value) : Except Fault Parameter := do
  let entries ← v.asObject
  let schema ← Schema.read s { path := .text ("#/parameters/" ++ toString position) } v
  return { location := Value.field entries "in", schema }

/-- The parameters from the given position on. -/
def readParameters (s : Settings) (position : Nat) : List Value → Except Fault (List Parameter)
  | [] => .ok []
  | v :: rest => do
    let parameter ← readParameter s position v
    return parameter :: (← readParameters s (position + 1) rest)

/-- The entry for the body's content type among the contents of a body. -/
def media (s : Settings) (body : Value) : Except Fault Value := do
  let contents ← (Value.field (← body.asObject) "content").orElse (.object []) |>.asObject
  match s.bodyType with
  | .text type => return Value.field contents type
  | .scalar _ => return .null
  | _ => throw .compositeKey

/-- The entries of a body's schema: those of the media entry, under the identifier and the
description of the operation. -/
def bodyEntries (operation media : List (String × Value)) : List (String × Value) :=
  let named := Table.insertEntry "operationId" (Value.field operation "operationId") media
  match operation.lookup "description" with
  | some description => Table.insertEntry "description" description named
  | none => named

/-- The schema of the body, named by the operation. A blank body, and one without the right
content type, is none. -/
def readBody (s : Settings) (operation : List (String × Value)) :
    Except Fault (Option Schema) := do
  let body := Value.field operation "requestBody"
  if body.isBlank then return none
  -- Nothing is read of other content types.
  match ← media s body with
  | .null => return none
  | .object entries =>
    let place : Place :=
      { path := .text ("#/requestBody/content/" ++ s.bodyType.display)
        name := (Value.field operation "operationId").orElse (.text "body") }
    some <$> Schema.read s place (.object (bodyEntries operation entries))
  | _ => throw .objectExpected

/-- The route that an operation with these entries states. -/
def ofEntries (s : Settings) (operation : List (String × Value)) : Except Fault Route := do
  let stated ← ((Value.field operation "parameters").orElse (.list [])).asElements
  -- Every parameter is read before the body.
  let parameters ← readParameters s 0 stated
  let body ← readBody s operation
  return {
    parameters
    body
    operationId := Value.field operation "operationId"
    description := Value.field operation "description" }

/-- The route that a value states. -/
def read (s : Settings) (operation : Value) : Except Fault Route := do
  ofEntries s (← operation.asObject)

end Route

end RouteRules
