import RouteRules.Route.Groups

/-!
# Sessions

A session compiles routes one after another. Its catalogue is copied at the start from a mapping
that lives on beside it. The copy is of the names only: both hold the addresses of the same schemas.
A change inside a schema is therefore seen by whoever still holds its address, while an assignment
to a name of the mapping is seen by the mapping alone.

## Main definitions

- `Session`, `Session.start`: the state, and the state at the start.
- `Session.context`: what a compilation in this state is done against.
- `Step`, `Reply`, `Session.step`: what can be done, and what is answered.
- `Session.run`: the answers to a sequence of steps.
-/

namespace RouteRules

/-- The state of a session. -/
structure Session where
  settings : Settings
  /-- All schemas that there have been, each at its own address. -/
  schemas : List Value
  /-- The addresses of the schemas in the catalogue. -/
  catalogue : Table Key Nat
  /-- The addresses of the schemas in the mapping that the catalogue was taken from. -/
  source : Table Key Nat

/-- What can be done in a session. -/
inductive Step where
  | compile (route : Value)
  /-- Assigns to settings by name. -/
  | configure (assignments : List (String × Value))
  /-- Assigns a schema to a name of the mapping. -/
  | put (name : String) (schema : Value)
  /-- Assigns to a field of the schema that the mapping holds under a name. -/
  | patch (name key : String) (v : Value)
  /-- Asks for the name of the component that a reference points to. -/
  | name (reference : Value)

/-- The answer to a step. -/
inductive Reply where
  | groups (groups : Groups)
  | settings (exported : Value)
  /-- The names in the catalogue. -/
  | names (names : List Key)
  | componentName (name : String)

/-- A schema with a field assigned. -/
def Value.assignField (v : Value) (key : String) (content : Value) : Except Fault Value :=
  match v with
  | .object entries => .ok (.object (Table.insertEntry key content entries))
  | _ => .error .objectExpected

namespace Session

/-- The session over a mapping. The catalogue and the mapping hold the same addresses. -/
def start (settings : Settings) (mapping : Catalogue) : Session where
  settings
  schemas := mapping.entries.map (·.2)
  catalogue := ⟨mapping.keys.zipIdx⟩
  source := ⟨mapping.keys.zipIdx⟩

/-- The schema at an address. -/
def schemaAt (s : Session) (address : Nat) : Value := s.schemas.getD address .null

/-- What a compilation is done against: the catalogue, with its schemas as they are now. -/
def context (s : Session) : Context := ⟨s.settings, s.catalogue.map s.schemaAt⟩

/-- The names in the catalogue, as an answer. -/
def namesReply (s : Session) : Reply := .names s.catalogue.keys

/-- Assigns a new schema to a name of the mapping. -/
def put (s : Session) (name : String) (schema : Value) : Session :=
  { s with
    schemas := s.schemas ++ [schema]
    source := s.source.insert (.text name) s.schemas.length }

/-- Assigns to a field of the schema that the mapping holds under `name`, where it is kept. -/
def patch (s : Session) (name key : String) (v : Value) : Except Fault Session :=
  match s.source.find? (.text name) with
  | none => .error (.missing name)
  | some address => do
    let schema ← (s.schemaAt address).assignField key v
    return { s with schemas := s.schemas.set address schema }

/-- One step: the state after it, and its answer. A failed step changes nothing, but for the
settings assigned before the one that was refused. -/
def step (s : Session) : Step → Session × Except Fault Reply
  | .compile route => (s, .groups <$> s.context.compileRoute route)
  | .configure assignments =>
    match s.settings.assignAll assignments with
    | (settings, none) => ({ s with settings }, .settings <$> settings.exported)
    | (settings, some fault) => ({ s with settings }, .error fault)
  | .put name schema => (s.put name schema, .ok s.namesReply)
  | .patch name key v =>
    match s.patch name key v with
    | .ok t => (t, .ok t.namesReply)
    | .error fault => (s, .error fault)
  | .name reference => (s, .componentName <$> s.settings.componentName reference)

/-- The answers to a sequence of steps. -/
def run (s : Session) : List Step → List (Except Fault Reply)
  | [] => []
  | step :: rest =>
    let (next, reply) := s.step step
    reply :: next.run rest

end Session

end RouteRules
