import RouteRules.Proofs.Route.Output
import RouteRules.Proofs.Schema.Revision

/-!
# The first fault of a route

A route that does not compile fails with its first fault. All of it is read before anything is
compiled: first the parameters in order, then the body. Then the parameters are compiled in order,
each before its location is looked at, and the body comes last. In each node the properties are
taken in order as well. So nothing that stands after the first fault matters to it.

## Main definitions

- `Context.FirstFault`: the first fault of an operation.
- `Context.Revision`: two operations that are the same up to a fault.

## Main statements

- `Context.compileRoute_eq_error`: an operation fails with its first fault, and with no other.
- `Context.Revision.firstFault`: the first fault of a revised operation.
- `Context.firstFault_order`: both, together with the order within a node.
-/

namespace RouteRules

/-! ## Reading in order -/

namespace Route

variable {s : Settings}

/-- The operation lists its parameters, if it states any. -/
def ListsParameters (operation : List (String × Value)) : Prop :=
  operation.lookup "parameters" = none ∨
    ∃ vs, operation.lookup "parameters" = some (.list vs)

theorem zipIdx_append_cons (before after : List Value) (v : Value) :
    (before ++ v :: after).zipIdx =
      before.zipIdx ++ (v, before.length) :: after.zipIdx (before.length + 1) := by
  rw [List.zipIdx_append, List.zipIdx_cons, Nat.zero_add]

/-- The parameters of a route are read before its body. -/
theorem read_object {operation : List (String × Value)} (hlist : ListsParameters operation) :
    read s (.object operation) = readParameters s 0 (stated operation) >>= fun parameters =>
      (fun body => ⟨parameters, body, Value.field operation "operationId",
        Value.field operation "description"⟩) <$> readBody s operation := by
  have hstated : ((Value.field operation "parameters").orElse (.list [])).asElements =
      .ok (stated operation) := by
    unfold stated Value.field
    -- What is stated is a list or absent, so that looking for parameters cannot fail.
    rcases hlist with hnone | ⟨vs, hvs⟩
    · rw [hnone]
      rfl
    · rw [hvs]
      cases vs <;> rfl
  show ofEntries s operation = _
  unfold ofEntries
  rw [hstated, ok_bind]
  exact bind_congr fun parameters => bind_ok_eq_map _ _

end Route

/-! ## Compiling in order -/

theorem Group.ofLocation_eq_error {location : Value} {fault : Fault} :
    ofLocation location = .error fault ↔
      (∀ s, location ≠ .scalar s) ∧ fault = .compositeKey := by
  -- Only scalars can be compared with the names of groups.
  cases location with
  | scalar s =>
    obtain ⟨group, hgroup⟩ := ofLocation_ok s
    rw [hgroup]
    exact ⟨nofun, fun h => absurd rfl (h.1 s)⟩
  | list items | object entries =>
    constructor
    · intro h
      cases h
      exact ⟨nofun, rfl⟩
    · rintro ⟨_, rfl⟩
      rfl

namespace Context

variable {c : Context} {fault : Fault}

/-- The parameter compiles, and its location can be compared with the names of groups. -/
def Passes (c : Context) (p : Parameter) : Prop :=
  (∃ t, c.text p.schema = .ok t) ∧ ∃ s, p.location = .scalar s

/-- The parameter does not compile, or it does and its location is a list or an object. -/
inductive FailsWith (c : Context) (fault : Fault) (p : Parameter) : Prop where
  | schema : c.text p.schema = .error fault → FailsWith c fault p
  | location : (∃ t, c.text p.schema = .ok t) → (∀ s, p.location ≠ .scalar s) →
      fault = .compositeKey → FailsWith c fault p

theorem text_eq_error {schema : Schema} :
    c.text schema = .error fault ↔ c.fields schema = .error fault :=
  map_eq_error

theorem memberText_eq_error {schema : Schema} :
    c.memberText schema = .error fault ↔ c.memberFields schema = .error fault :=
  map_eq_error

theorem parameterFields_ok_iff {p : Parameter} :
    (∃ r, c.parameterFields p = .ok r) ↔ c.Passes p := by
  constructor
  · rintro ⟨⟨found, fields⟩, h⟩
    obtain ⟨hfields, hlocation⟩ := parameterFields_eq_ok.mp h
    refine ⟨text_ok_iff.mpr ⟨fields, hfields⟩, ?_⟩
    cases hp : p.location with
    | scalar s => exact ⟨s, rfl⟩
    | list items | object entries =>
      rw [hp] at hlocation
      cases hlocation
  · rintro ⟨htext, s, hs⟩
    obtain ⟨fields, hfields⟩ := text_ok_iff.mp htext
    obtain ⟨found, hfound⟩ := Group.ofLocation_ok s
    exact ⟨(found, fields), parameterFields_eq_ok.mpr ⟨hfields, hs ▸ hfound⟩⟩

theorem parameterFields_eq_error {p : Parameter} :
    c.parameterFields p = .error fault ↔ c.FailsWith fault p := by
  unfold parameterFields
  rw [bind_eq_error, ← text_eq_error]
  constructor
  -- The schema is compiled before the location is looked at.
  · rintro (h | ⟨fields, hfields, h⟩)
    · exact .schema h
    · rcases bind_eq_error.mp h with h | ⟨group, _, h⟩
      · obtain ⟨hlocation, hfault⟩ := Group.ofLocation_eq_error.mp h
        exact .location (text_ok_iff.mpr ⟨fields, hfields⟩) hlocation hfault
      · cases h
  · rintro (h | ⟨htext, hlocation, hfault⟩)
    · exact .inl h
    · obtain ⟨fields, hfields⟩ := text_ok_iff.mp htext
      refine .inr ⟨fields, hfields, bind_eq_error.mpr (.inl ?_)⟩
      exact Group.ofLocation_eq_error.mpr ⟨hlocation, hfault⟩

/-- The first fault of an operation. -/
inductive FirstFault (c : Context) (operation : List (String × Value)) (fault : Fault) : Prop where
  /-- The first parameter that cannot be read. -/
  | readingParameter :
      FirstFails (fun e => Route.readParameter c.settings e.2 e.1) (Route.stated operation).zipIdx
        fault →
      FirstFault c operation fault
  /-- The body, where all parameters can be read. -/
  | readingBody {parameters : List Parameter} :
      Route.readParameters c.settings 0 (Route.stated operation) = .ok parameters →
      Route.readBody c.settings operation = .error fault → FirstFault c operation fault
  /-- The first parameter that fails, where everything can be read. -/
  | parameter {route : Route} {before after : List Parameter} {p : Parameter} :
      Route.read c.settings (.object operation) = .ok route →
      route.parameters = before ++ p :: after → (∀ q ∈ before, c.Passes q) →
      c.FailsWith fault p → FirstFault c operation fault
  /-- The body, where all parameters pass. -/
  | body {route : Route} {schema : Schema} :
      Route.read c.settings (.object operation) = .ok route →
      (∀ p ∈ route.parameters, c.Passes p) → route.body = some schema →
      c.memberText schema = .error fault → FirstFault c operation fault

/-- A route that has been read fails with its first parameter that fails, or else with its body. -/
theorem groupFields_eq_error {route : Route} :
    c.groupFields route = .error fault ↔
      (∃ before p after, route.parameters = before ++ p :: after ∧ (∀ q ∈ before, c.Passes q) ∧
        c.FailsWith fault p) ∨
      ((∀ p ∈ route.parameters, c.Passes p) ∧
        ∃ schema, route.body = some schema ∧ c.memberText schema = .error fault) := by
  -- Two phases: the parameters one after the other, and the body if all of them pass.
  have hbody : c.bodyFields route.body = .error fault ↔
      ∃ schema, route.body = some schema ∧ c.memberText schema = .error fault := by
    simp only [memberText_eq_error]
    cases route.body with
    | none => exact ⟨nofun, nofun⟩
    | some schema =>
      constructor
      · exact fun h => ⟨schema, rfl, h⟩
      · rintro ⟨_, ⟨⟩, h⟩
        exact h
  have hall : (∃ compiled, route.parameters.mapM c.parameterFields = .ok compiled) ↔
      ∀ p ∈ route.parameters, c.Passes p := by
    simp only [← parameterFields_ok_iff]
    exact ⟨fun ⟨compiled, h⟩ p hp => exists_of_mapM_eq_ok h hp, exists_mapM_eq_ok⟩
  unfold groupFields
  rw [bind_eq_error, mapM_eq_error]
  simp only [parameterFields_ok_iff, parameterFields_eq_error]
  refine or_congr Iff.rfl ?_
  rw [← hbody, ← hall]
  constructor
  · rintro ⟨compiled, hcompiled, h⟩
    rcases bind_eq_error.mp h with h | ⟨body, _, h⟩
    · exact ⟨⟨compiled, hcompiled⟩, h⟩
    · cases h
  · rintro ⟨⟨compiled, hcompiled⟩, h⟩
    exact ⟨compiled, hcompiled, bind_eq_error.mpr (.inl h)⟩

/-- An operation fails with its first fault, and with no other. -/
theorem compileRoute_eq_error {operation : List (String × Value)}
    (hlist : Route.ListsParameters operation) :
    c.compileRoute (.object operation) = .error fault ↔ c.FirstFault operation fault := by
  rw [compileRoute_object, bind_eq_error]
  simp only [map_eq_error]
  -- Reading comes before compiling, and in both the parameters come before the body.
  constructor
  · rintro (h | ⟨route, hread, h⟩)
    · rw [Route.read_object hlist, bind_eq_error] at h
      rcases h with h | ⟨parameters, hparameters, h⟩
      · rw [Route.readParameters_eq_mapM] at h
        exact .readingParameter (firstFails_iff.mpr h)
      · exact .readingBody hparameters (map_eq_error.mp h)
    · rcases groupFields_eq_error.mp h with ⟨before, p, after, hall, hbefore, hp⟩ |
        ⟨hall, schema, hbody, h⟩
      · exact .parameter hread hall hbefore hp
      · exact .body hread hall hbody h
  · intro h
    cases h with
    | readingParameter hfirst =>
      left
      rw [Route.read_object hlist, Route.readParameters_eq_mapM, firstFails_iff.mp hfirst,
        error_bind]
    | readingBody hparameters hbody =>
      left
      rw [Route.read_object hlist, hparameters, ok_bind, hbody, map_error]
    | parameter hread hall hbefore hp =>
      exact .inr ⟨_, hread, groupFields_eq_error.mpr (.inl ⟨_, _, _, hall, hbefore, hp⟩)⟩
    | body hread hall hbody h =>
      exact .inr ⟨_, hread, groupFields_eq_error.mpr (.inr ⟨hall, _, hbody, h⟩)⟩

/-! ## Operations that are revised -/

/-- Two operations are the same up to a fault: up to a parameter that cannot be read, up to the body
that cannot be read, up to a parameter that fails, or up to the body that fails. Nothing is said
about what comes later, but for the last two cases: there, all of both can be read. -/
inductive Revision (c : Context) (fault : Fault) (operation other : List (String × Value)) :
    Prop where
  | readingParameter {before after after' : List Value} {v w : Value} :
      Route.stated operation = before ++ v :: after →
      Route.stated other = before ++ w :: after' →
      (∀ e ∈ before.zipIdx, ∃ p, Route.readParameter c.settings e.2 e.1 = .ok p) →
      (Phase.reading c.settings).Revises fault (Route.parameterPlace before.length) v w →
      Revision c fault operation other
  | readingBody {parameters : List Parameter} {place : Place} {v w : Value} :
      Route.stated operation = Route.stated other →
      Route.readParameters c.settings 0 (Route.stated operation) = .ok parameters →
      Route.bodySchema c.settings operation = .ok (some (place, v)) →
      Route.bodySchema c.settings other = .ok (some (place, w)) →
      (Phase.reading c.settings).Revises fault place v w → Revision c fault operation other
  /-- The parameter fails in a part of its schema, and is revised after that. -/
  | parameter {route route' : Route} {before after after' : List Value} {v w : Value} :
      Route.read c.settings (.object operation) = .ok route →
      Route.read c.settings (.object other) = .ok route' →
      Route.stated operation = before ++ v :: after →
      Route.stated other = before ++ w :: after' →
      (∀ e ∈ before.zipIdx, ∃ p, Route.readParameter c.settings e.2 e.1 = .ok p ∧ c.Passes p) →
      (Phase.compiling c).Revises fault (Route.parameterPlace before.length) v w →
      Revision c fault operation other
  /-- The parameter fails, in whatever way, and is left as it is. -/
  | sameParameter {route route' : Route} {before after after' : List Value} {v : Value}
      {p : Parameter} :
      Route.read c.settings (.object operation) = .ok route →
      Route.read c.settings (.object other) = .ok route' →
      Route.stated operation = before ++ v :: after →
      Route.stated other = before ++ v :: after' →
      (∀ e ∈ before.zipIdx, ∃ p, Route.readParameter c.settings e.2 e.1 = .ok p ∧ c.Passes p) →
      Route.readParameter c.settings before.length v = .ok p → c.FailsWith fault p →
      Revision c fault operation other
  | body {route route' : Route} {place : Place} {v w : Value} :
      Route.read c.settings (.object operation) = .ok route →
      Route.read c.settings (.object other) = .ok route' →
      Route.stated operation = Route.stated other → (∀ p ∈ route.parameters, c.Passes p) →
      Route.bodySchema c.settings operation = .ok (some (place, v)) →
      Route.bodySchema c.settings other = .ok (some (place, w)) →
      (Phase.compiling c).Revises fault place v w → Revision c fault operation other

variable {operation other : List (String × Value)}

theorem Revision.symm (h : c.Revision fault operation other) :
    c.Revision fault other operation := by
  cases h with
  | readingParameter hstated hstated' hbefore hrevises =>
    exact .readingParameter hstated' hstated hbefore hrevises.symm
  | readingBody hstated hparameters hbody hbody' hrevises =>
    exact .readingBody hstated.symm (hstated ▸ hparameters) hbody' hbody hrevises.symm
  | parameter hread hread' hstated hstated' hbefore hrevises =>
    exact .parameter hread' hread hstated' hstated hbefore hrevises.symm
  | sameParameter hread hread' hstated hstated' hbefore hp hfails =>
    exact .sameParameter hread' hread hstated' hstated hbefore hp hfails
  | body hread hread' hstated hall hbody hbody' hrevises =>
    -- The parameters are the same ones, so they pass in the other operation too.
    have hsame := (Route.read_eq_ok hread).1
    rw [hstated, (Route.read_eq_ok hread').1] at hsame
    have hall := Except.ok.inj hsame ▸ hall
    exact .body hread' hread hstated.symm hall hbody' hbody hrevises.symm

/-- A route that has been read fails with a stated parameter that fails, if those stated before it
pass. -/
theorem firstFault_of_stated {route : Route} {before after : List Value} {v : Value}
    (hread : Route.read c.settings (.object operation) = .ok route)
    (hstated : Route.stated operation = before ++ v :: after)
    (hbefore : ∀ e ∈ before.zipIdx,
      ∃ p, Route.readParameter c.settings e.2 e.1 = .ok p ∧ c.Passes p)
    (hfails : ∀ p, Route.readParameter c.settings before.length v = .ok p → c.FailsWith fault p) :
    c.FirstFault operation fault := by
  have hparameters := (Route.read_eq_ok hread).1
  rw [hstated, Route.readParameters_eq_mapM, Route.zipIdx_append_cons] at hparameters
  -- The route has the parameters in the order in which they are stated, so it comes apart at the
  -- same place.
  obtain ⟨first, p, rest, hroute, hfirst, hp, _⟩ := mapM_append_cons_eq_ok.mp hparameters
  refine .parameter hread hroute (fun q hq => ?_) (hfails p hp)
  obtain ⟨e, he, hreadq⟩ := exists_of_mem_right (mapM_eq_ok.mp hfirst) hq
  obtain ⟨found, hfound, hpasses⟩ := hbefore e he
  have hsame : found = q := Except.ok.inj (hfound.symm.trans hreadq)
  exact hsame ▸ hpasses

/-- The fault up to which operations are the same is the first fault of each. -/
theorem Revision.firstFault (h : c.Revision fault operation other) :
    c.FirstFault operation fault := by
  -- In each case the fault of the part that is revised is the fault of the phase.
  cases h with
  | @readingParameter before after _ v _ hstated _ hbefore hrevises =>
    apply FirstFault.readingParameter
    rw [hstated, Route.zipIdx_append_cons]
    refine ⟨_, _, _, rfl, hbefore, ?_⟩
    show Route.readParameter c.settings before.length v = .error fault
    rw [Route.readParameter_eq, Schema.read_of_revises hrevises, map_error]
  | readingBody _ hparameters hbody _ hrevises =>
    apply FirstFault.readingBody hparameters
    rw [Route.readBody_eq, hbody, ok_bind]
    show some <$> Schema.read c.settings _ _ = _
    rw [Schema.read_of_revises hrevises, map_error]
  | parameter hread _ hstated _ hbefore hrevises =>
    refine firstFault_of_stated hread hstated hbefore fun p hp => .schema (text_eq_error.mpr ?_)
    rw [Route.readParameter_eq] at hp
    obtain ⟨schema, hschema, rfl⟩ := map_eq_ok.mp hp
    exact Schema.fields_eq_error c.expand (expr_of_revises hrevises hschema)
  | sameParameter hread _ hstated _ hbefore hp hfails =>
    refine firstFault_of_stated hread hstated hbefore fun q hq => ?_
    rw [hp] at hq
    cases hq
    exact hfails
  | body hread _ _ hall hbody _ hrevises =>
    have hroute := (Route.read_eq_ok hread).2
    rw [Route.readBody_eq, hbody, ok_bind] at hroute
    obtain ⟨schema, hschema, hsome⟩ := map_eq_ok.mp hroute
    refine .body hread hall hsome.symm (memberText_eq_error.mpr ?_)
    exact Schema.memberFields_eq_error c.expand (expr_of_revises hrevises hschema)

/-- An operation fails with its first fault: of what cannot be read the parameters come before the
body, and of what does not compile likewise. The fault of a node is that of its first property that
is at fault, whether its properties are read, compiled as a value or as a group, or stand for a
reference. So a revision of what comes after the first fault leaves the fault as it is. -/
theorem firstFault_order (c : Context) (operation : List (String × Value))
    (hlist : Route.ListsParameters operation) :
    (∀ fault, c.compileRoute (.object operation) = .error fault ↔ c.FirstFault operation fault) ∧
    (∀ place required properties fault,
      Schema.readProperties c.settings place required properties = .error fault ↔
        FirstFails (fun e => Schema.read c.settings (place.property required e.1) e.2) properties
          fault) ∧
    (∀ info properties fault, info.replacement = .null → properties ≠ [] →
      (c.expr (.object info properties) = .error fault ↔ FirstFails c.fields properties fault) ∧
      (c.memberFields (.object info properties) = .error fault ↔
        FirstFails c.fields properties fault)) ∧
    (∀ r info properties fault, c.Names r (.object info properties) → properties ≠ [] →
      (c.expand r = .error fault ↔ FirstFails c.fields properties fault)) ∧
    ∀ other fault, Route.ListsParameters other → c.Revision fault operation other →
      c.compileRoute (.object operation) = .error fault ∧
        c.compileRoute (.object other) = .error fault := by
  refine ⟨?order, ?read, ?compiled, ?component, ?revised⟩
  case order => exact fun fault => compileRoute_eq_error hlist
  case read => exact fun place required properties fault => Schema.readProperties_eq_error
  -- As a value and as a group, an object is compiled property by property.
  case compiled =>
    intro info properties fault hnull hsome
    constructor
    · rw [expr, Schema.expr_object_of_null c.expand hnull hsome, map_eq_error]
      exact Schema.fieldsOfAll_eq_error c.expand
    · rw [memberFields, Schema.memberFields_object c.expand hnull hsome]
      exact Schema.fieldsOfAll_eq_error c.expand
  case component =>
    intro r info properties fault hnames hsome
    cases properties with
    | nil => exact absurd rfl hsome
    | cons first rest =>
      rw [expand_eq, content_eq_properties.mpr ⟨info, hnames⟩, ok_bind]
      exact Schema.fieldsOfAll_eq_error c.expand
  -- A revision has one fault from both sides.
  case revised =>
    intro other fault hother h
    exact ⟨(compileRoute_eq_error hlist).mpr h.firstFault,
      (compileRoute_eq_error hother).mpr h.symm.firstFault⟩

/-! ## A ride -/

/-- A catalogue with a wheel that turns forever. -/
def fair : Context where
  settings := {}
  catalogue := .ofList
    [(.text "Wheel", .object [("properties", .object
      [("turn", .object [("$ref", .text "#/components/schemas/Wheel")])])])]

def seat : Value :=
  .object [("name", .text "seat"), ("in", .text "query"), ("type", .text "integer")]

def price : String × Value := ("price", .object [("type", .text "number")])

/-- A property of a type that is not supported. -/
def zone : Value := .object [("type", .text "area")]

/-- A parameter with a price, a zone and then these properties. -/
def ticket (after : List (String × Value)) : List (String × Value) :=
  [("name", .text "ticket"), ("in", .text "header"),
   ("properties", .object ([price] ++ ("zone", zone) :: after))]

/-- An operation with a seat, a ticket and then these parameters. -/
def ride (properties : List (String × Value)) (after : List Value) : List (String × Value) :=
  [("parameters", .list ([seat] ++ .object (ticket properties) :: after))]

/-- A property that refers to the wheel. -/
def turning : String × Value := ("wheel", .object [("$ref", .text "#/components/schemas/Wheel")])

/-- A parameter that refers to nothing. -/
def gate : Value :=
  .object [("name", .text "gate"), ("$ref", .text "#/components/schemas/Gate")]

theorem opens_ticket (after : List (String × Value))
    (hinfo : ∃ info, (Facets.ofEntries (ticket after)).info fair.settings
      (Route.parameterPlace 1) = .ok info ∧ info.replacement = .null) :
    (Phase.compiling fair).Opens .object (Route.parameterPlace 1) (ticket after) :=
  ⟨rfl, rfl, hinfo⟩

/-- A ride fails with its zone, whether the wheel and the gate come after it or not. -/
theorem firstFault_order_ride :
    Route.ListsParameters (ride [turning] [gate]) ∧
      fair.FirstFault (ride [turning] [gate]) (.unsupportedType (.text "zone") (.text "area")) ∧
      fair.compileRoute (.object (ride [turning] [gate])) =
        .error (.unsupportedType (.text "zone") (.text "area")) ∧
      fair.compileRoute (.object (ride [] [])) =
        .error (.unsupportedType (.text "zone") (.text "area")) := by
  have hlist : Route.ListsParameters (ride [turning] [gate]) := .inr ⟨_, rfl⟩
  have hother : Route.ListsParameters (ride [] []) := .inr ⟨_, rfl⟩
  have hprice : ∀ e ∈ [price], ∃ schema,
      Schema.read {} ((Route.parameterPlace 1).property [] e.1) e.2 = .ok schema ∧
        ∃ e, fair.expr schema = .ok e := by
    decide +kernel
  have hzone : ∃ schema,
      Schema.read {} ((Route.parameterPlace 1).property [] "zone") zone = .ok schema ∧
        fair.expr schema = .error (.unsupportedType (.text "zone") (.text "area")) := by
    decide +kernel
  -- The price is compiled before the zone, and the wheel would only come after it.
  have hrevises : (Phase.compiling fair).Revises (.unsupportedType (.text "zone") (.text "area"))
      (Route.parameterPlace 1) (.object (ticket [turning])) (.object (ticket [])) :=
    .property (opens_ticket _ (by decide +kernel)) (opens_ticket _ (by decide +kernel)) rfl rfl
      rfl rfl hprice (.same hzone)
  have hseat : ∀ e ∈ [seat].zipIdx, ∃ p, Route.readParameter {} e.2 e.1 = .ok p ∧
      (∃ t, fair.text p.schema = .ok t) ∧ ∃ s, p.location = .scalar s := by
    decide +kernel
  have hstated : Route.stated (ride [turning] [gate]) =
      [seat] ++ .object (ticket [turning]) :: [gate] := by
    decide +kernel
  have hstated' : Route.stated (ride [] []) = [seat] ++ .object (ticket []) :: [] := by
    decide +kernel
  obtain ⟨route, hread⟩ :
      ∃ route, Route.read {} (.object (ride [turning] [gate])) = .ok route := by
    decide +kernel
  obtain ⟨route', hread'⟩ : ∃ route, Route.read {} (.object (ride [] [])) = .ok route := by
    decide +kernel
  have hrevision := Revision.parameter hread hread' hstated hstated' hseat hrevises
  obtain ⟨horder, _, _, _, hrevised⟩ := firstFault_order fair (ride [turning] [gate]) hlist
  obtain ⟨hfails, hfails'⟩ := hrevised _ _ hother hrevision
  exact ⟨hlist, (horder _).mp hfails, hfails, hfails'⟩

end Context

end RouteRules
