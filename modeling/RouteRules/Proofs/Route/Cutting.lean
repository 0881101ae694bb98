import RouteRules.Proofs.Route.Output
import RouteRules.Proofs.Schema.Verbatim

/-!
# Groups can be cut back

If all texts of a route are closed, the text of each of its groups can be cut back into the texts of
the fields of the group, in order, and so can the text of every object within a field. Nothing is
escaped for this: that the texts are closed is enough.

## Main definitions

- `Route.declared`: the schemas whose fields make up a group.
- `Context.CutsBackField`: a field, and the objects within it, each cut back into fields.

## Main statements

- `Context.fieldsOf_declared`: a group has the fields of the schemas declared for it.
- `Context.groups_cutBack`: the groups of a route whose texts are closed can be cut back.
-/

namespace RouteRules

/-! ## The schemas that make up a group -/

/-- The schemas that give the fields of a schema that is a group of its own. An object is opened. -/
def Schema.members : Schema → List Schema
  | .object info properties =>
    if info.replacement = .null then properties else [.object info properties]
  | schema => [schema]

namespace Route

/-- The schemas whose fields make up a group, in order. -/
def declared (route : Route) : Group → List Schema
  | .body => (route.schemasOf .body).flatMap Schema.members
  | group => route.schemasOf group

/-- The schemas of the parameters and of the body. -/
def schemas (route : Route) : List Schema := route.parameters.map (·.schema) ++ route.body.toList

theorem schemasOf_subset (route : Route) (group : Group) :
    ∀ schema ∈ route.schemasOf group, schema ∈ route.schemas := by
  intro schema hmem
  -- The body has a schema of its own; the others are found among the parameters.
  cases group with
  | body => exact List.mem_append_right _ hmem
  | query | path =>
    obtain ⟨p, hp, rfl⟩ := List.mem_map.mp hmem
    exact List.mem_append_left _ (List.mem_map_of_mem (List.mem_of_mem_filter hp))

end Route

namespace Schema

variable {expand : Expansion}

theorem fieldsOfAll_singleton (schema : Schema) :
    fieldsOfAll expand [schema] = schema.fields expand := by
  rw [fieldsOfAll_cons]
  cases schema.fields expand with
  | error fault => rfl
  | ok own => exact congrArg Except.ok (List.append_nil own)

/-- The fields of a schema as a group are those of its members. -/
theorem fieldsOfAll_members {schema : Schema} {fields : List Field}
    (h : schema.memberFields expand = .ok fields) :
    fieldsOfAll expand schema.members = .ok fields := by
  cases schema with
  | object info properties =>
    have h : (if info.replacement.isNull then
        if properties.isEmpty then .error (.noProperties info.name)
        else fieldsOfAll expand properties
      else (object info properties).fields expand) = .ok fields := h
    simp only [members, ← Value.isNull_iff]
    -- Without a replacement the members are the properties, of which there is at least one.
    split at h
    · rename_i hnull
      rw [if_pos hnull]
      split at h
      · cases h
      · exact h
    · rename_i hnull
      rw [if_neg hnull, fieldsOfAll_singleton, h]
  | bareObject info =>
    have h : (if info.replacement.isNull then .error (.noProperties info.name)
      else (bareObject info).fields expand) = .ok fields := h
    split at h
    · cases h
    · exact (fieldsOfAll_singleton _).trans h
  | _ => exact (fieldsOfAll_singleton _).trans h

theorem fieldsOfAll_flatMap_members {schemas : List Schema} {own : List (List Field)}
    (h : List.Forall₂ (fun schema fields => schema.memberFields expand = .ok fields) schemas own) :
    fieldsOfAll expand (schemas.flatMap members) = .ok own.flatten := by
  induction h with
  | nil => rfl
  | cons hfirst _ ih =>
    rw [List.flatMap_cons, fieldsOfAll_append, fieldsOfAll_members hfirst, ih]
    rfl

end Schema

namespace Context

variable {c : Context} {route : Route}

/-- The fields of a group are those of the schemas that are declared for it. -/
theorem fieldsOf_declared {group : Group} {fields : List Field}
    (h : c.fieldsOf route group = .ok fields) :
    Schema.fieldsOfAll c.expand (route.declared group) = .ok fields := by
  cases group with
  | query | path => exact (Schema.fieldsOfAll_eq_mapM c.expand _).trans h
  | body =>
    obtain ⟨own, hown, rfl⟩ := map_eq_ok.mp h
    exact Schema.fieldsOfAll_flatMap_members (mapM_eq_ok.mp hown)

/-! ## Closed texts -/

theorem ClosedTexts.members {schema : Schema} (h : c.ClosedTexts schema) :
    ∀ m ∈ schema.members, c.ClosedTexts m := by
  cases schema with
  | object info properties =>
    by_cases hnull : info.replacement = .null
    -- The texts and the references of an object are its own and those of its properties.
    · have hreferences : (Schema.object info properties).references =
          Schema.referencesOfAll properties := if_pos hnull
      have hmembers : (Schema.object info properties).members = properties := if_pos hnull
      rw [hmembers]
      intro m hm
      refine ⟨fun t ht => h.1 t (List.mem_append_right _ ?_), fun r hr => h.2 r ?_⟩
      · exact Schema.mem_textsOfAll.mpr ⟨m, hm, ht⟩
      · exact hreferences ▸ Schema.mem_referencesOfAll.mpr ⟨m, hm, hr⟩
    · have hmembers : (Schema.object info properties).members = [.object info properties] :=
        if_neg hnull
      rw [hmembers]
      exact List.forall_mem_singleton.mpr h
  | _ => exact List.forall_mem_singleton.mpr h

theorem closedTexts_declared (h : ∀ schema ∈ route.schemas, c.ClosedTexts schema) (group : Group) :
    ∀ schema ∈ route.declared group, c.ClosedTexts schema := by
  intro schema hmem
  cases group with
  | query => exact h schema (route.schemasOf_subset .query schema hmem)
  | path => exact h schema (route.schemasOf_subset .path schema hmem)
  | body =>
    obtain ⟨body, hbody, hmem⟩ := List.mem_flatMap.mp hmem
    exact (h body (route.schemasOf_subset .body body hbody)).members schema hmem

/-! ## Fields that are cut back -/

/-- The field is that of the schema. Every object within the schema stands in the text of the field,
and can be cut back into the fields that its properties give. -/
def CutsBackField (c : Context) (schema : Schema) (field : Field) : Prop :=
  schema.GivesField c.withoutCatalogue.expand field ∧
    List.Forall₂ (fun properties fields =>
      Schema.GivesObject c.withoutCatalogue.expand properties fields ∧
        ∃ s : String, s.toList <:+: (field.2.render c.validator).toList ∧
          IsObjectOf c.validator s fields) schema.objects field.2.wrappers

theorem cutsBackField {schema : Schema} {field : Field} (hvalidator : Closed c.validator)
    (href : schema.references = []) (hclosed : ∀ t ∈ schema.texts, Closed t)
    (h : schema.GivesField c.withoutCatalogue.expand field) : c.CutsBackField schema field := by
  refine ⟨h, forall₂_imp_of_mem (Schema.forall₂_wrappers href h.2) ?_⟩
  intro properties _ fields hmem hgives
  have hvalue := Schema.isClosed_expr href hclosed h.2
  exact ⟨hgives, Expr.wrapper_isObjectOf hvalidator hvalue hmem hgives.1⟩

theorem hasScalarLocations_of_groupFields {groups : List (Group × List Field)}
    (h : c.groupFields route = .ok groups) : route.HasScalarLocations := by
  intro p hp
  obtain ⟨compiled, hcompiled, _⟩ := bind_eq_ok.mp h
  obtain ⟨⟨found, fields⟩, hfields⟩ := exists_of_mapM_eq_ok hcompiled hp
  have hlocation := (parameterFields_eq_ok.mp hfields).2
  -- A location that is a list or an object cannot be compared, and no groups come of it.
  cases hvalue : p.location with
  | scalar s => exact ⟨s, rfl⟩
  | list items =>
    rw [hvalue] at hlocation
    cases hlocation
  | object entries =>
    rw [hvalue] at hlocation
    cases hlocation

/-- If the texts of a route, and of all components that it leads to, are closed, every group is an
object that can be cut back into its fields: one for each schema that is declared for the group, and
for each property of a component in the place of a reference. The same holds for every object within
these fields. -/
theorem groups_cutBack (c : Context) (operation : List (String × Value)) (route : Route)
    (groups : Groups) (hread : Route.read c.settings (.object operation) = .ok route)
    (hgroups : c.compileRoute (.object operation) = .ok groups) (hvalidator : Closed c.validator)
    (hclosed : ∀ schema ∈ route.schemas, c.ClosedTexts schema) :
    ∀ group text, (group, text) ∈ groups → ∃ ms fields,
      ExpandsAll c (route.declared group) ms ∧ IsObjectOf c.validator text fields ∧
        List.Forall₂ c.CutsBackField ms fields := by
  intro group text hmem
  rw [compileRoute_of_read hread] at hgroups
  obtain ⟨compiled, hcompiled, rfl⟩ := map_eq_ok.mp hgroups
  obtain ⟨_, fieldsOf, hfieldsOf, rfl⟩ :=
    groupFields_eq_ok (hasScalarLocations_of_groupFields hcompiled) hcompiled
  obtain ⟨hne, rfl⟩ := mem_groups_iff.mp hmem
  have hdeclared := fieldsOf_declared (hfieldsOf group)
  -- What compiles has an expansion, which gives the same fields without a catalogue.
  obtain ⟨ms, hms⟩ : ∃ ms, ExpandsAll c (route.declared group) ms := by
    apply exists_expandsAll
    intro schema hschema
    obtain ⟨own, hown⟩ := fields_of_mem hdeclared hschema
    exact (wellFormed_of_fields hown).expands.2
  have hbare : Schema.fieldsOfAll c.withoutCatalogue.expand ms = .ok (fieldsOf group) :=
    (hms.fieldsOfAll_eq _).symm.trans hdeclared
  have href := hms.references_eq
  have htexts := hms.closed (closedTexts_declared hclosed group)
  have hgives := Schema.forall₂_givesField
    (fun m hm => Schema.isReference_of_references (href m hm)) hbare
  -- What is spliced into a field is text of a schema that gives it, so it is closed.
  have hfields : FieldsClosed (fieldsOf group) := by
    apply fieldsClosed_iff.mpr
    intro f hf
    obtain ⟨m, hm, hfield⟩ := exists_of_mem_right hgives hf
    exact ⟨hfield.closed_key (htexts m hm),
      Schema.isClosed_expr (href m hm) (htexts m hm) hfield.2⟩
  refine ⟨ms, fieldsOf group, hms, ?_, ?_⟩
  -- The group itself, and then the objects within each of its fields.
  · rw [groupText_eq]
    exact isObjectOf_objectText hvalidator hne hfields
  · apply forall₂_imp_of_mem hgives
    intro m hm f _ hfield
    exact cutsBackField hvalidator (href m hm) (htexts m hm) hfield

/-- The texts of the fields of a visit. The commas within the dogs do not cut. -/
def visitPieces : Group → List String
  | .query => ["visitor: Joi.string()", "visitors: Joi.number().integer()"]
  | .path => ["id: Joi.string().required()"]
  | .body =>
    ["name: Joi.string()",
     "dogs: Joi.array().items(\n    Joi.object().keys(\x7b\n    " ++
       "age: Joi.number().integer()\n  \x7d)\n)"]

/-- All three groups of a visit are cut back, each into the texts of its fields. -/
theorem groups_cutBack_visit :
    ∃ route, Route.read {} (.object (visit [visitId, visitor, visitTrace, visitors])) = .ok route ∧
      household.compileRoute (.object (visit [visitId, visitor, visitTrace, visitors])) =
        .ok visitGroups ∧
      Closed household.validator ∧ (∀ schema ∈ route.schemas, household.ClosedTexts schema) ∧
      ∀ group, ∃ text ms fields, (group, text) ∈ visitGroups ∧
        ExpandsAll household (route.declared group) ms ∧
        fields.map (pieceText household.validator) = visitPieces group ∧
        List.Forall₂ household.CutsBackField ms fields := by
  obtain ⟨route, hread, htexts⟩ : ∃ route,
      Route.read {} (.object (visit [visitId, visitor, visitTrace, visitors])) = .ok route ∧
      ∀ schema ∈ route.schemas, ∀ t ∈ schema.texts, Closed t := by
    decide +kernel
  have hgroups : household.compileRoute
      (.object (visit [visitId, visitor, visitTrace, visitors])) = .ok visitGroups := by
    decide +kernel
  have hvalidator : Closed household.validator := by decide +kernel
  have hclosed : ∀ schema ∈ route.schemas, household.ClosedTexts schema := fun schema hschema =>
    ⟨htexts schema hschema, fun r _ => closedBelow_of_entries (by decide +kernel) r⟩
  refine ⟨route, hread, hgroups, hvalidator, hclosed, fun group => ?_⟩
  have hmem : (group, objectText household.validator (visitPieces group)) ∈ visitGroups := by
    cases group <;> decide +kernel
  -- There is one way to cut a text, so the pieces that are found are those that are given here.
  have hcut : CutsInto household.validator (objectText household.validator (visitPieces group))
      (visitPieces group) := by
    apply cutsInto_objectText
    · cases group <;> decide
    · cases group <;> decide +kernel
  obtain ⟨ms, fields, hms, hobject, hfields⟩ :=
    groups_cutBack household _ route visitGroups hread hgroups hvalidator hclosed group _ hmem
  exact ⟨_, ms, fields, hmem, hms, hobject.2.unique hcut, hfields⟩

end Context

end RouteRules
