import RouteRules.Document.Parameters
import RouteRules.Route.Groups

/-!
# Documents

A document states operations by path and method, and the components that they refer to. Operations
are compiled path by path in the order of declaration, and within a path in a fixed order of
methods.

## Main definitions

- `Method`: the methods, in the order in which operations are compiled.
- `Context.compileOperation`: the key and the groups of one operation.
- `compileDocument`: the groups of all operations.
-/

namespace RouteRules

/-- The methods of a request. -/
inductive Method where
  | get
  | put
  | post
  | delete
  | options
  | head
  | patch
  | trace
deriving DecidableEq

namespace Method

def all : List Method := [get, put, post, delete, options, head, patch, trace]

/-- The field under which a path states the operation. -/
def field : Method → String
  | get => "get"
  | put => "put"
  | post => "post"
  | delete => "delete"
  | options => "options"
  | head => "head"
  | patch => "patch"
  | trace => "trace"

/-- The method as it is sent. -/
def verb : Method → String
  | get => "GET"
  | put => "PUT"
  | post => "POST"
  | delete => "DELETE"
  | options => "OPTIONS"
  | head => "HEAD"
  | patch => "PATCH"
  | trace => "TRACE"

end Method

/-- The entries of an operation. It has to state a table, and that as an object. -/
def operationEntries (operation : Value) : Except Fault (List (String × Value)) := do
  let _ ← operation.asTable
  operation.asObject

/-- What an operation goes by: its identifier, or else its method and path. -/
def operationName (path : String) (method : Method) (operation : List (String × Value)) : Value :=
  (Value.field operation "operationId").orElse (.text (method.verb ++ " " ++ path))

/-- The entries of an operation with the parameters of its path merged in. -/
def mergedEntries (shared : Value) (operation : List (String × Value)) :
    Except Fault (List (String × Value)) := do
  let own := (Value.field operation "parameters").orElse (.list [])
  return Table.insertEntry "parameters" (.list (← mergeParameters shared own)) operation

namespace Context

/-- The key and the groups of one operation. -/
def compileOperation (c : Context) (path : String) (shared : Value) (method : Method)
    (operation : Value) : Except Fault (Key × Groups) := do
  let entries ← operationEntries operation
  let groups ← c.compileEntries (← mergedEntries shared entries)
  -- An unusable identifier is a fault only of an operation that compiles.
  match (operationName path method entries).key? with
  | some key => return (key, groups)
  | none => throw .compositeKey

/-- The operations of a path, one after the other. Methods without an operation are passed over. -/
def compileMethods (c : Context) (path : String) (shared : Value)
    (item : List (String × Value)) : List Method → Except Fault (List (Key × Groups))
  | [] => .ok []
  | method :: rest =>
    match Value.field item method.field with
    | .null => c.compileMethods path shared item rest
    | operation => do
      let compiled ← c.compileOperation path shared method operation
      return compiled :: (← c.compileMethods path shared item rest)

/-- The operations of one path. -/
def compilePath (c : Context) (path : String) (item : Value) :
    Except Fault (List (Key × Groups)) := do
  let entries ← item.asObject
  let shared := (Value.field entries "parameters").orElse (.list [])
  c.compileMethods path shared entries Method.all

end Context

/-- The groups of every operation of a document. Of operations with one key, the first gives the
place and the last the groups. -/
def compileDocument (s : Settings) (document : Value) : Except Fault (Table Key Groups) := do
  let entries ← document.asObject
  -- Components are listed here, and read only where they are referred to.
  let catalogue ← Catalogue.ofComponents (Value.field entries "components")
  let paths ← (Value.field entries "paths").orElse (.object []) |>.asObject
  let compiled ← paths.mapM fun p => Context.compilePath ⟨s, catalogue⟩ p.1 p.2
  return Table.ofList compiled.flatten

end RouteRules
