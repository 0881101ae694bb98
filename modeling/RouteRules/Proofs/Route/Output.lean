import RouteRules.Proofs.Route.Groups
import RouteRules.Proofs.Route.Stated

/-!
# The output of a route

What an operation is compiled to, told from what it states. All its parameters have to compile,
wherever they are sent, and its body has to. A group is there if a parameter is stated for its
location, and the body's if a body is stated; the fields of a group are those of what is stated for
it, in order. How parameters of different locations alternate is not seen in the groups.

## Main definitions

- `Context.StatedParametersCompile`, `Context.StatedBodyCompiles`: what has to compile.
- `Context.IsOutput`: what the groups of an operation are.
- `Route.SameGroups`: operations that state the same parameters for the query and for the path.

## Main statements

- `Context.compileRoute_spec`: when an operation compiles, to what, and what does not matter to it.
-/

namespace RouteRules

namespace Route

/-- The location of every parameter that is stated can be compared with the names of groups. -/
def StatesScalarLocations (operation : List (String × Value)) : Prop :=
  ∀ v ∈ stated operation, ∃ s, Value.field v.entries "in" = .scalar s

/-- The operations state the same parameters for the query and for the path, each in the same order,
and do not differ but for their parameters. -/
structure SameGroups (operation other : List (String × Value)) : Prop where
  lookup_eq : ∀ key, key ≠ "parameters" → operation.lookup key = other.lookup key
  query_eq : statedIn "query" operation = statedIn "query" other
  path_eq : statedIn "path" operation = statedIn "path" other

end Route

namespace Context

/-- The parameters that an operation states compile, wherever they are sent. -/
def StatedParametersCompile (c : Context) (operation : List (String × Value)) : Prop :=
  ∀ e ∈ Route.placed operation, ∃ t, (Schema.read c.settings e.1 e.2 >>= c.text) = .ok t

/-- The body that an operation states, if it does, compiles as a group of its own. -/
def StatedBodyCompiles (c : Context) (operation : List (String × Value)) : Prop :=
  ∀ entries, Route.StatesBody c.settings operation entries →
    ∃ t, (Schema.read c.settings (Route.bodyPlace c.settings operation)
      (Route.bodyOf operation entries) >>= c.memberText) = .ok t

instance (operation : List (String × Value)) :
    Decidable (Route.StatesScalarLocations operation) :=
  inferInstanceAs (Decidable (∀ v ∈ Route.stated operation, _))

instance (c : Context) (operation : List (String × Value)) :
    Decidable (c.StatedParametersCompile operation) :=
  inferInstanceAs (Decidable (∀ e ∈ Route.placed operation, _))

/-- What the groups of an operation are: at most three in a fixed order, each of them there exactly
if something is stated for it, and each the object around the fields of what is stated. -/
structure IsOutput (c : Context) (operation : List (String × Value)) (groups : Groups) : Prop where
  order : (groups.map (·.1)).Sublist [.query, .path, .body]
  query_mem : .query ∈ groups.map (·.1) ↔
    ∃ v ∈ Route.stated operation, Value.field v.entries "in" = .text "query"
  path_mem : .path ∈ groups.map (·.1) ↔
    ∃ v ∈ Route.stated operation, Value.field v.entries "in" = .text "path"
  body_mem : .body ∈ groups.map (·.1) ↔ ∃ entries, Route.StatesBody c.settings operation entries
  parameters_eq : ∀ group text, group ≠ .body → (group, text) ∈ groups →
    ∃ own, ((Route.placedIn group.name operation).mapM fun e =>
        Schema.read c.settings e.1 e.2 >>= c.fields) = .ok own ∧
      text = objectText c.validator (own.flatten.map (pieceText c.validator))
  body_eq : ∀ text, (.body, text) ∈ groups →
    ∃ entries own, Route.StatesBody c.settings operation entries ∧
      (Schema.read c.settings (Route.bodyPlace c.settings operation)
        (Route.bodyOf operation entries) >>= c.memberFields) = .ok own ∧
      text = objectText c.validator (own.map (pieceText c.validator))

variable {c : Context} {route other : Route} {operation operation' : List (String × Value)}

/-! ## What is stated and what is read -/

section Stated

variable (hread : Route.read c.settings (.object operation) = .ok route)

include hread

theorem hasScalarLocations_iff_stated :
    route.HasScalarLocations ↔ Route.StatesScalarLocations operation := by
  refine (forall_mem_iff_of_forall₂ (Route.forall₂_readParameters (Route.read_eq_ok hread).1)
    fun v p hp => ?_).symm
  rw [hp.location_eq]

theorem parametersCompile_iff_stated :
    c.ParametersCompile route ↔ c.StatedParametersCompile operation := by
  apply (forall_mem_iff_of_forall₂ (Route.forall₂_placed hread) ?_).symm
  intro e p hp
  rw [hp.read_eq, ok_bind]

theorem bodyCompiles_iff_stated :
    (∀ body ∈ route.body, ∃ t, c.memberText body = .ok t) ↔ c.StatedBodyCompiles operation := by
  -- A route has a body exactly if one is stated, and then both sides are about what is read of it.
  constructor
  · intro h entries hentries
    obtain ⟨schema, hschema, hbody⟩ := Route.exists_body hread hentries
    rw [hbody, ok_bind]
    exact h schema hschema
  · intro h schema hschema
    obtain ⟨entries, hentries, hbody⟩ := (Route.body_eq_some_iff hread).mp hschema
    have hcompiles := h entries hentries
    rwa [hbody, ok_bind] at hcompiles

/-- Something contributes to the query or to the path exactly if it is stated for this location. -/
theorem schemasOf_ne_nil_iff_stated {group : Group} (hgroup : group ≠ .body) :
    route.schemasOf group ≠ [] ↔
      ∃ v ∈ Route.stated operation, Value.field v.entries "in" = .text group.name := by
  -- Nothing is sent there if no location that is stated says so, and locations are taken over as
  -- they are.
  have hnone : (∀ v ∈ Route.stated operation, Value.field v.entries "in" ≠ .text group.name) ↔
      ∀ p ∈ route.parameters, p.location ≠ .text group.name := by
    apply forall_mem_iff_of_forall₂ (Route.forall₂_readParameters (Route.read_eq_ok hread).1)
    intro v p hp
    rw [hp.location_eq]
  rw [schemasOf_ne_nil_iff hgroup, ← not_iff_not]
  push Not
  exact hnone.symm

theorem schemasOf_body_ne_nil_iff_stated : route.schemasOf .body ≠ [] ↔
    ∃ entries, Route.StatesBody c.settings operation entries := by
  have hsome : route.schemasOf .body ≠ [] ↔ ∃ schema, route.body = some schema := by
    rw [Route.schemasOf]
    cases route.body <;> simp
  rw [hsome]
  constructor
  · rintro ⟨schema, hschema⟩
    obtain ⟨entries, hentries, _⟩ := (Route.body_eq_some_iff hread).mp hschema
    exact ⟨entries, hentries⟩
  · rintro ⟨entries, hentries⟩
    obtain ⟨schema, hschema, _⟩ := Route.exists_body hread hentries
    exact ⟨schema, hschema⟩

theorem isOutput_of_groupFields {groups : List (Group × List Field)}
    (hlocations : route.HasScalarLocations) (h : c.groupFields route = .ok groups) :
    c.IsOutput operation (groups.map fun g => (g.1, c.groupText g.2)) := by
  -- The groups are the three that there can be, less those that are empty.
  obtain ⟨_, fields, hfields, rfl⟩ := groupFields_eq_ok hlocations h
  constructor
  case order =>
    rw [List.map_map]
    exact List.Sublist.map Prod.fst List.filter_sublist
  case query_mem =>
    exact (mem_keys_iff hfields .query).trans (schemasOf_ne_nil_iff_stated hread (by decide))
  case path_mem =>
    exact (mem_keys_iff hfields .path).trans (schemasOf_ne_nil_iff_stated hread (by decide))
  case body_mem =>
    exact (mem_keys_iff hfields .body).trans (schemasOf_body_ne_nil_iff_stated hread)
  case parameters_eq =>
    intro group text hgroup hg
    obtain ⟨_, rfl⟩ := mem_groups_iff.mp hg
    obtain ⟨own, hown, hflatten⟩ := map_eq_ok.mp (hfields group)
    rw [c.fieldsIn_eq hgroup, route.schemasOf_eq hgroup,
      ← Route.mapM_stated (Route.forall₂_placedIn group.name hread)] at hown
    exact ⟨own, hown, by rw [groupText_eq, hflatten]⟩
  case body_eq =>
    intro text hg
    obtain ⟨hne, rfl⟩ := mem_groups_iff.mp hg
    have hbody := hfields .body
    rw [← bodyFields_eq] at hbody
    -- A route without a body has no fields for the group, so it would not be there.
    cases hschema : route.body with
    | none =>
      rw [hschema] at hbody
      exact absurd (Except.ok.inj hbody).symm hne
    | some schema =>
      obtain ⟨entries, hentries, hschemaRead⟩ := (Route.body_eq_some_iff hread).mp hschema
      rw [hschema] at hbody
      refine ⟨entries, fields .body, hentries, ?_, groupText_eq c _⟩
      rw [hschemaRead, ok_bind]
      exact hbody

end Stated

/-! ## Operations with the same groups -/

theorem fieldsOf_congr {group : Group} (hgroup : group ≠ .body)
    (h : (route.schemasOf group).map Schema.unplaced =
      (other.schemasOf group).map Schema.unplaced) :
    c.fieldsOf route group = c.fieldsOf other group := by
  have hunplaced : ∀ schemas : List Schema,
      (schemas.map Schema.unplaced).mapM c.fields = schemas.mapM c.fields := by
    intro schemas
    rw [List.mapM_map]
    exact congrArg (schemas.mapM ·) (funext fun schema => schema.fields_unplaced c.expand)
  rw [fieldsOf, fieldsOf, c.fieldsIn_eq hgroup, ← hunplaced, h, hunplaced]

/-- Operations with the same parameters in the query, in the path and the same body have the same
groups, if all parameters of both compile. -/
theorem compileRoute_congr
    (hread : Route.read c.settings (.object operation) = .ok route)
    (hread' : Route.read c.settings (.object operation') = .ok other)
    (hlocations : route.HasScalarLocations) (hlocations' : other.HasScalarLocations)
    (hcompile : c.ParametersCompile route) (hcompile' : c.ParametersCompile other)
    (h : Route.SameGroups operation operation') :
    c.compileRoute (.object operation) = c.compileRoute (.object operation') := by
  -- Once all parameters compile, the groups depend on the query, the path and the body only.
  obtain ⟨query, path, hquery, hpath, hgroups⟩ := groupFields_eq hlocations hcompile
  obtain ⟨query', path', hquery', hpath', hgroups'⟩ := groupFields_eq hlocations' hcompile'
  have hbody : route.body = other.body := by
    have hbody := (Route.read_eq_ok hread).2
    rw [Route.readBody_congr h.lookup_eq, (Route.read_eq_ok hread').2] at hbody
    exact (Except.ok.inj hbody).symm
  -- What is stated for a location tells its schemas, but for the positions that show in paths.
  have hschemas : ∀ group, group ≠ .body →
      Route.statedIn group.name operation = Route.statedIn group.name operation' →
      (route.schemasOf group).map Schema.unplaced =
        (other.schemasOf group).map Schema.unplaced := by
    intro group hgroup hstated
    have hparameters := Route.forall₂_statedIn group.name hread
    rw [hstated] at hparameters
    have hsame := Route.unplaced_eq_of_stated hparameters
      (Route.forall₂_statedIn group.name hread')
    rw [route.schemasOf_eq hgroup, other.schemasOf_eq hgroup, List.map_map, List.map_map]
    exact hsame
  rw [fieldsOf_congr (by decide) (hschemas .query (by decide) h.query_eq), hquery'] at hquery
  rw [fieldsOf_congr (by decide) (hschemas .path (by decide) h.path_eq), hpath'] at hpath
  cases hquery
  cases hpath
  rw [compileRoute_of_read hread, compileRoute_of_read hread', hgroups, hgroups', hbody]

/-- An operation that can be read compiles exactly if all parameters that it states compile,
whatever their location, and its body does. Then its groups are those of its query, of its path and
of its body. Parameters that are sent elsewhere, and the order of parameters of different locations,
do not show in them. -/
theorem compileRoute_spec (c : Context) (operation : List (String × Value))
    (hread : ∃ route, Route.read c.settings (.object operation) = .ok route)
    (hlocations : Route.StatesScalarLocations operation) :
    ((∃ groups, c.compileRoute (.object operation) = .ok groups) ↔
      c.StatedParametersCompile operation ∧ c.StatedBodyCompiles operation) ∧
    (∀ groups, c.compileRoute (.object operation) = .ok groups → c.IsOutput operation groups) ∧
    ∀ operation', (∃ route, Route.read c.settings (.object operation') = .ok route) →
      Route.StatesScalarLocations operation' → c.StatedParametersCompile operation →
      c.StatedParametersCompile operation' → Route.SameGroups operation operation' →
      c.compileRoute (.object operation) = c.compileRoute (.object operation') := by
  obtain ⟨route, hread⟩ := hread
  have hlocations := (hasScalarLocations_iff_stated hread).mpr hlocations
  refine ⟨?_, ?_, ?_⟩
  -- The conditions on what is stated are those on the route that is read of it.
  · rw [← parametersCompile_iff_stated hread, ← bodyCompiles_iff_stated hread,
      ← groupFields_ok_iff hlocations, compileRoute_of_read hread]
    cases c.groupFields route <;> simp
  · intro groups h
    rw [compileRoute_of_read hread] at h
    obtain ⟨fields, hfields, rfl⟩ := map_eq_ok.mp h
    exact isOutput_of_groupFields hread hlocations hfields
  · rintro operation' ⟨other, hread'⟩ hlocations' hcompile hcompile' h
    exact compileRoute_congr hread hread' hlocations
      ((hasScalarLocations_iff_stated hread').mpr hlocations')
      ((parametersCompile_iff_stated hread).mpr hcompile)
      ((parametersCompile_iff_stated hread').mpr hcompile') h

/-- An operation with these parameters, and a person of the household as its body. -/
def visit (parameters : List Value) : List (String × Value) :=
  [("parameters", .list parameters),
   ("operationId", .text "visit"),
   ("requestBody", .object [("content", .object [("application/json", .object
     [("schema", .object [("$ref", .text "#/components/schemas/Person")])])])])]

def visitor : Value :=
  .object [("name", .text "visitor"), ("in", .text "query"), ("type", .text "string")]

def visitors : Value :=
  .object [("name", .text "visitors"), ("in", .text "query"), ("schema", .object
    [("type", .text "integer")])]

def visitId : Value :=
  .object [("name", .text "id"), ("in", .text "path"), ("type", .text "string"),
    ("required", .bool true)]

def visitTrace : Value :=
  .object [("name", .text "trace"), ("in", .text "header"), ("type", .text "number")]

/-- The groups of a visit. The trace, which is sent in the header, is in none of them. -/
def visitGroups : Groups :=
  [(.query, "Joi.object().keys(\x7b\n    visitor: Joi.string(),\n    " ++
     "visitors: Joi.number().integer()\n  \x7d)"),
   (.path, "Joi.object().keys(\x7b\n    id: Joi.string().required()\n  \x7d)"),
   (.body, "Joi.object().keys(\x7b\n    name: Joi.string(),\n    dogs: Joi.array().items(\n    " ++
     "Joi.object().keys(\x7b\n    age: Joi.number().integer()\n  \x7d)\n)\n  \x7d)")]

/-- A visit has a group of each kind, and the same groups when its parameters are sorted. -/
theorem compileRoute_spec_visit :
    household.compileRoute (.object (visit [visitId, visitor, visitTrace, visitors])) =
        .ok visitGroups ∧
      household.IsOutput (visit [visitId, visitor, visitTrace, visitors]) visitGroups ∧
      household.StatedParametersCompile (visit [visitId, visitor, visitTrace, visitors]) ∧
      household.StatedBodyCompiles (visit [visitId, visitor, visitTrace, visitors]) ∧
      household.compileRoute (.object (visit [visitor, visitors, visitId])) = .ok visitGroups := by
  -- Both operations meet the conditions, and one compilation is run; the other follows.
  have hread : ∀ parameters ∈
      [[visitId, visitor, visitTrace, visitors], [visitor, visitors, visitId]],
      (∃ route, Route.read household.settings (.object (visit parameters)) = .ok route) ∧
        Route.StatesScalarLocations (visit parameters) := by
    decide +kernel
  have hvisit := hread [visitId, visitor, visitTrace, visitors] (by simp)
  have hsorted := hread [visitor, visitors, visitId] (by simp)
  have hgroups : household.compileRoute
      (.object (visit [visitId, visitor, visitTrace, visitors])) = .ok visitGroups := by
    decide +kernel
  have hcompile : household.StatedParametersCompile (visit [visitor, visitors, visitId]) := by
    decide +kernel
  have hsame : Route.SameGroups (visit [visitId, visitor, visitTrace, visitors])
      (visit [visitor, visitors, visitId]) := by
    refine ⟨fun key hkey => ?_, by decide +kernel, by decide +kernel⟩
    simp only [visit, List.lookup_cons, beq_false_of_ne hkey]
  obtain ⟨hiff, houtput, hcongr⟩ := compileRoute_spec household _ hvisit.1 hvisit.2
  obtain ⟨hparameters, hbody⟩ := hiff.mp ⟨_, hgroups⟩
  refine ⟨hgroups, houtput _ hgroups, hparameters, hbody, ?_⟩
  rw [← hcongr _ hsorted.1 hsorted.2 hparameters hcompile hsame, hgroups]

end Context

end RouteRules
