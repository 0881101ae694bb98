import RouteRules.Route.Basic

/-!
# Groups of a route

A compiled route has up to three groups: one for the parameters of the query, one for those of the
path, one for the body. Parameters sent elsewhere are compiled as well, and then dropped.

## Main definitions

- `Context.groupFields`: the groups of a route that has been read.
- `Context.compileRoute`: the groups of a route as a document states it.
-/

namespace RouteRules

/-- The parts of a request that have rules. -/
inductive Group where
  | query
  | path
  | body
deriving DecidableEq

namespace Group

def name : Group → String
  | query => "query"
  | path => "path"
  | body => "body"

/-- The group of the parameters sent in a location, if they have one. -/
def ofLocation : Value → Except Fault (Option Group)
  | .text "query" => .ok (some query)
  | .text "path" => .ok (some path)
  | .scalar _ => .ok none
  | _ => .error .compositeKey

end Group

/-- The compiled groups of a route, in order: the text of each group that has a field. -/
abbrev Groups := List (Group × String)

/-- The fields of one group, gathered from compiled parameters in order. -/
def Group.gather (group : Group) (compiled : List (Option Group × List Field)) : List Field :=
  compiled.flatMap fun p => if p.1 = some group then p.2 else []

namespace Context

/-- The fields of a parameter and the group that they belong to. -/
def parameterFields (c : Context) (p : Parameter) : Except Fault (Option Group × List Field) := do
  -- The location is looked at only after the schema has been compiled.
  let fields ← c.fields p.schema
  let group ← Group.ofLocation p.location
  return (group, fields)

/-- The fields of the body; a route without a body has none. -/
def bodyFields (c : Context) : Option Schema → Except Fault (List Field)
  | none => .ok []
  | some schema => c.memberFields schema

/-- The groups of a route and their fields, in order, none of them empty. -/
def groupFields (c : Context) (route : Route) : Except Fault (List (Group × List Field)) := do
  let compiled ← route.parameters.mapM c.parameterFields
  let body ← c.bodyFields route.body
  let groups :=
    [(Group.query, Group.query.gather compiled), (.path, Group.path.gather compiled), (.body, body)]
  return groups.filter fun g => !g.2.isEmpty

/-- The text of a group: an object with the fields of the group. -/
def groupText (c : Context) (fields : List Field) : String :=
  (Expr.object fields []).render c.validator

/-- The groups of the operation with the given entries. -/
def compileEntries (c : Context) (operation : List (String × Value)) : Except Fault Groups := do
  let route ← Route.ofEntries c.settings operation
  let groups ← c.groupFields route
  return groups.map fun g => (g.1, c.groupText g.2)

/-- The groups of the route that a value states. Null is no route at all. -/
def compileRoute (c : Context) : Value → Except Fault Groups
  | .null => .error .noRoute
  | v => do c.compileEntries (← v.asObject)

end Context

end RouteRules
