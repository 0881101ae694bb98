import RouteRules.Document.Basic
import RouteRules.Proofs.Outcome

/-!
# The operations of a document

A document of the expected shape states a list of operations: path by path, and for each path method
by method. Each of them is a route of its own, and to compile the document is to compile these
routes one after the other.

## Main definitions

- `Value.isDocument`: the shape of a document, as far as operations are concerned.
- `Operation`, `operations`: the operations of a document in the order of compilation.
- `Operation.route`, `Operation.key`: the route that an operation states, and its key.

## Main statements

- `mergeParameters_eq`: what merged parameters are, where parameters have names and locations.
- `Context.compileOperation_eq`: an operation is compiled as its route is.
- `compileDocument_eq`: a document is compiled operation by operation.
-/

namespace RouteRules

/-! ## Shapes -/

namespace Value

def isScalar : Value → Bool
  | scalar _ => true
  | _ => false

/-- A parameter whose name and location can be compared. -/
def isParameter : Value → Bool
  | object entries => (field entries "name").isScalar && (field entries "in").isScalar
  | _ => false

def isParameterList : Value → Bool
  | null => true
  | list vs => vs.all isParameter
  | _ => false

/-- What a path states for a method: an operation or nothing. -/
def isOperation : Value → Bool
  | null => true
  | object entries =>
    (field entries "parameters").isParameterList && (field entries "operationId").isScalar
  | _ => false

def isPathItem : Value → Bool
  | object entries =>
    (field entries "parameters").isParameterList &&
      Method.all.all fun method => (field entries method.field).isOperation
  | _ => false

/-- An object, or nothing. -/
def isOptionalObject : Value → Bool
  | null => true
  | object _ => true
  | _ => false

/-- A document whose paths, operations and parameters are of the expected shape. Schemas and bodies
may be anything. -/
def isDocument : Value → Bool
  | object entries =>
    (field entries "paths").isOptionalObject &&
      (field entries "paths").entries.all (fun p => p.2.isPathItem) &&
      (field entries "components").isOptionalObject &&
      (field (field entries "components").entries "schemas").isOptionalObject
  | _ => false

/-- The items of a list; other values have none. -/
def items : Value → List Value
  | list vs => vs
  | _ => []

theorem exists_of_isScalar {v : Value} (h : v.isScalar = true) : ∃ s, v = .scalar s := by
  cases v with
  | scalar s => exact ⟨s, rfl⟩
  | _ => cases h

theorem orElse_asElements {v : Value} (h : v.isParameterList = true) :
    (v.orElse (.list [])).asElements = .ok v.items := by
  cases v with
  | scalar s =>
    cases s with
    | null => rfl
    | _ => cases h
  | list vs => cases vs <;> rfl
  | object entries => cases h

theorem isParameter_of_mem_items {v p : Value} (h : v.isParameterList = true) (hp : p ∈ v.items) :
    p.isParameter = true := by
  cases v with
  | list vs => exact List.all_eq_true.mp h p hp
  | _ => cases hp

theorem orElse_asObject {v : Value} (h : v.isOptionalObject = true) :
    (v.orElse (.object [])).asObject = .ok v.entries := by
  cases v with
  | scalar s =>
    cases s with
    | null => rfl
    | _ => cases h
  | list vs => cases h
  | object entries => cases entries <;> rfl

/-- The value as a key. Lists and objects, which are no keys, count as null. -/
def asKey (v : Value) : Key := v.key?.getD ⟨.null⟩

/-- The name and the location of a parameter. -/
def parameterKey (v : Value) : Key × Key :=
  ((field v.entries "name").asKey, (field v.entries "in").asKey)

end Value

/-! ## Merged parameters -/

theorem parameterId_eq {v : Value} (h : v.isParameter = true) :
    parameterId v = .ok v.parameterKey := by
  cases v with
  | object entries =>
    obtain ⟨hname, hlocation⟩ := (Bool.and_eq_true _ _).mp h
    obtain ⟨name, hname⟩ := Value.exists_of_isScalar hname
    obtain ⟨location, hlocation⟩ := Value.exists_of_isScalar hlocation
    simp only [parameterId, Value.parameterKey, Value.asObject, Value.entries, ok_bind, hname,
      hlocation]
    rfl
  | _ => cases h

theorem undeclared_eq (declared : List (Key × Key)) {vs : List Value}
    (h : ∀ v ∈ vs, v.isParameter = true) :
    undeclared declared vs = .ok (vs.filter fun v => !declared.contains v.parameterKey) := by
  induction vs with
  | nil => rfl
  | cons v rest ih =>
    have hrest := ih fun other hother => h other (List.mem_cons_of_mem _ hother)
    rw [undeclared, parameterId_eq (h v (List.mem_cons_self ..)), ok_bind, hrest, ok_bind]
    -- A declared parameter is passed over, any other is kept in front of the rest.
    cases hdeclared : declared.contains v.parameterKey with
    | true => rw [List.filter_cons_of_neg (by simp [hdeclared])]; rfl
    | false => rw [List.filter_cons_of_pos (by simp [hdeclared])]; rfl

/-- The parameters of the path that the operation does not declare, and then its own. -/
theorem mergeParameters_eq {shared own : Value} {vs ws : List Value}
    (hshared : shared.asElements = .ok vs) (hown : own.asElements = .ok ws)
    (hvs : ∀ v ∈ vs, v.isParameter = true) (hws : ∀ w ∈ ws, w.isParameter = true) :
    mergeParameters shared own =
      .ok ((vs.filter fun v => !(ws.map Value.parameterKey).contains v.parameterKey) ++ ws) := by
  -- Neither the keys of the declared parameters nor those of the shared ones can fail.
  have hdeclared := mapM_of_forall_ok fun w hw => parameterId_eq (hws w hw)
  rw [mergeParameters, hown, ok_bind, hdeclared, ok_bind, hshared, ok_bind, undeclared_eq _ hvs]
  rfl

/-! ## Operations -/

/-- An operation, and what its path states for it. -/
structure Operation where
  path : String
  method : Method
  /-- The parameters of the path. -/
  shared : List Value
  entries : List (String × Value)

namespace Operation

/-- The parameters that the operation states itself. -/
def own (op : Operation) : List Value := (Value.field op.entries "parameters").items

/-- The parameters of the path that the operation does not declare, and then its own. -/
def parameters (op : Operation) : List Value :=
  (op.shared.filter fun p => !(op.own.map Value.parameterKey).contains p.parameterKey) ++ op.own

/-- The route that the operation states. -/
def route (op : Operation) : List (String × Value) :=
  Table.insertEntry "parameters" (.list op.parameters) op.entries

/-- The identifier of the operation, or else its method and path. -/
def key (op : Operation) : Key := (operationName op.path op.method op.entries).asKey

/-- The operation has the shape of one. -/
def IsShaped (op : Operation) : Prop :=
  (Value.object op.entries).isOperation = true ∧ ∀ p ∈ op.shared, p.isParameter = true

end Operation

/-- The operation that a path states for a method. -/
def operationAt (path : String) (item : List (String × Value)) (method : Method) :
    Option Operation :=
  match Value.field item method.field with
  | .object entries => some ⟨path, method, (Value.field item "parameters").items, entries⟩
  | _ => none

/-- The operations of a path, in the order of methods. -/
def operationsOf (path : String) (item : List (String × Value)) : List Operation :=
  Method.all.filterMap (operationAt path item)

/-- The operations of a document, in the order of paths. -/
def operations (document : List (String × Value)) : List Operation :=
  (Value.field document "paths").entries.flatMap fun p => operationsOf p.1 p.2.entries

/-! ## Operation by operation -/

namespace Context

variable {c : Context}

/-- The key and the groups of an operation, compiled as a route. -/
def compileKeyed (c : Context) (op : Operation) : Except Fault (Key × Groups) :=
  (fun groups => (op.key, groups)) <$> c.compileRoute (.object op.route)

/-- An operation is compiled as its route is. -/
theorem compileOperation_eq {op : Operation} (h : op.IsShaped) {shared : Value}
    (hshared : shared.asElements = .ok op.shared) :
    c.compileOperation op.path shared op.method (.object op.entries) = c.compileKeyed op := by
  obtain ⟨hown, hid⟩ := (Bool.and_eq_true _ _).mp h.1
  have hentries : operationEntries (.object op.entries) = .ok op.entries := rfl
  have hmerge : mergeParameters shared ((Value.field op.entries "parameters").orElse (.list [])) =
      .ok op.parameters :=
    mergeParameters_eq hshared (Value.orElse_asElements hown) h.2
      fun w hw => Value.isParameter_of_mem_items hown hw
  have hmerged : mergedEntries shared op.entries = .ok op.route := by
    rw [mergedEntries, hmerge]
    rfl
  -- An identifier that is a scalar is a key, and so is the text that takes its place.
  have hname : (operationName op.path op.method op.entries).key? = some op.key := by
    obtain ⟨id, hid⟩ := Value.exists_of_isScalar hid
    unfold Operation.key operationName
    rw [hid]
    unfold Value.orElse
    split <;> rfl
  rw [compileOperation, hentries, ok_bind, hmerged, ok_bind, hname, compileKeyed]
  exact bind_ok_eq_map (c.compileEntries op.route) _

theorem compileMethods_eq {path : String} {shared : Value} {item : List (String × Value)}
    (hshared : shared.asElements = .ok (Value.field item "parameters").items)
    (hparameters : ∀ p ∈ (Value.field item "parameters").items, p.isParameter = true)
    {methods : List Method}
    (h : ∀ method ∈ methods, (Value.field item method.field).isOperation = true) :
    c.compileMethods path shared item methods =
      (methods.filterMap (operationAt path item)).mapM c.compileKeyed := by
  induction methods with
  | nil => rfl
  | cons method rest ih =>
    have hrest := ih fun other hother => h other (List.mem_cons_of_mem _ hother)
    have hmethod := h method (List.mem_cons_self ..)
    rw [compileMethods, List.filterMap_cons]
    unfold operationAt
    -- Null stands for a method without an operation, and other scalars and lists have been ruled
    -- out.
    cases hfield : Value.field item method.field with
    | scalar s =>
      rw [hfield] at hmethod
      cases s with
      | null => exact hrest
      | _ => cases hmethod
    | list vs =>
      rw [hfield] at hmethod
      cases hmethod
    | object entries =>
      rw [hfield] at hmethod
      have hop : Operation.IsShaped
          ⟨path, method, (Value.field item "parameters").items, entries⟩ := ⟨hmethod, hparameters⟩
      rw [List.mapM_cons, ← compileOperation_eq hop hshared]
      simp only
      rw [hrest]
      rfl

/-- The operations of a path are compiled method by method. -/
theorem compilePath_eq {path : String} {item : Value} (h : item.isPathItem = true) :
    c.compilePath path item = (operationsOf path item.entries).mapM c.compileKeyed := by
  cases item with
  | object entries =>
    obtain ⟨hparameters, hmethods⟩ := (Bool.and_eq_true _ _).mp h
    exact compileMethods_eq (Value.orElse_asElements hparameters)
      (fun p hp => Value.isParameter_of_mem_items hparameters hp) (List.all_eq_true.mp hmethods)
  | _ => cases h

end Context

/-- The groups of a route, against the components that a value states. -/
def compileAgainst (s : Settings) (registry route : Value) : Except Fault Groups := do
  let catalogue ← Catalogue.ofValue registry
  Context.compileRoute ⟨s, catalogue⟩ route

/-- The components that a document states. -/
def schemasOf (document : List (String × Value)) : Value :=
  Value.field (Value.field document "components").entries "schemas"

theorem Catalogue.exists_ofValue {v : Value} (h : v.isOptionalObject = true) :
    ∃ catalogue, Catalogue.ofValue v = .ok catalogue := by
  cases v with
  | scalar s =>
    cases s with
    | null => exact ⟨_, rfl⟩
    | _ => cases h
  | list vs => cases h
  | object entries => cases entries <;> exact ⟨_, rfl⟩

theorem compileDocument_object (s : Settings) (document : List (String × Value)) :
    compileDocument s (.object document) = do
      let catalogue ← Catalogue.ofComponents (Value.field document "components")
      let paths ← ((Value.field document "paths").orElse (.object [])).asObject
      let compiled ← paths.mapM fun (p : String × Value) =>
        Context.compilePath ⟨s, catalogue⟩ p.1 p.2
      return Table.ofList compiled.flatten := rfl

/-- A document is compiled operation by operation, each of them as a route. -/
theorem compileDocument_eq (s : Settings) {document : List (String × Value)}
    (h : (Value.object document).isDocument = true) :
    compileDocument s (.object document) = Table.ofList <$> (operations document).mapM fun op =>
      (fun groups => (op.key, groups)) <$>
        compileAgainst s (schemasOf document) (.object op.route) := by
  simp only [Value.isDocument, Bool.and_eq_true, List.all_eq_true] at h
  obtain ⟨⟨⟨hpaths, hitems⟩, hcomponents⟩, hschemas⟩ := h
  obtain ⟨catalogue, hcatalogue⟩ := Catalogue.exists_ofValue hschemas
  -- The catalogue is the same for every operation, so each can be compiled against it by itself.
  have hof : Catalogue.ofComponents (Value.field document "components") = .ok catalogue := by
    rw [Catalogue.ofComponents, Value.orElse_asObject hcomponents]
    exact hcatalogue
  have hagainst : ∀ op : Operation, (fun groups => (op.key, groups)) <$>
      compileAgainst s (schemasOf document) (.object op.route) =
        Context.compileKeyed ⟨s, catalogue⟩ op := by
    intro op
    rw [compileAgainst, schemasOf, hcatalogue]
    rfl
  -- Path by path and method by method is operation by operation.
  have hwalk := flatten_mapM fun (p : String × Value) hp =>
    (Context.compilePath_eq (hitems p hp) : Context.compilePath ⟨s, catalogue⟩ p.1 p.2 = _)
  simp only [hagainst]
  rw [operations, ← hwalk, compileDocument_object, hof, ok_bind, Value.orElse_asObject hpaths,
    ok_bind]
  cases (Value.field document "paths").entries.mapM fun (p : String × Value) =>
    Context.compilePath ⟨s, catalogue⟩ p.1 p.2 <;> rfl

end RouteRules
