import RouteRules.Proofs.Route.FirstFault
import RouteRules.Proofs.Schema.PlainObjects

/-!
# The text of a plain object

A plain object has one text, or one fault, wherever it stands: as the body of a route or as a
component that the body refers to, as a component that a parameter of the query refers to, as the
items of an array, as a property, as a parameter.

## Main definitions

- `Context.valueText`: the text of a schema as a value.

## Main statements

- `Context.lookup_groupFields`: the text of a group of a route that compiles.
- `Context.plainObject_one_text`: all these texts are the same.
-/

namespace RouteRules

/-! ## One group of a route -/

namespace Context

variable {c : Context} {route : Route} {fault : Fault}

/-- Of groups that are not empty, each is found under its own name. -/
theorem lookup_groups (c : Context) (fields : Group → List Field) {group : Group}
    (hne : fields group ≠ []) :
    List.lookup group ((([Group.query, .path, .body].map fun g => (g, fields g)).filter
      fun g => !g.2.isEmpty).map fun g => (g.1, c.groupText g.2)) =
        some (c.groupText (fields group)) := by
  have hkept : ∀ rest, List.filter (fun g : Group × List Field => !g.2.isEmpty)
      ((group, fields group) :: rest) = (group, fields group) ::
        rest.filter fun g => !g.2.isEmpty :=
    fun rest => List.filter_cons_of_pos (by simpa using hne)
  -- Empty groups that stand before it are left out, and do not change what is found.
  cases group with
  | query =>
    rw [List.map_cons, hkept]
    rfl
  | path =>
    rw [List.map_cons, List.map_cons, List.filter_cons, hkept]
    split <;> rfl
  | body =>
    rw [List.map_cons, List.map_cons, List.map_cons, List.filter_cons, List.filter_cons, hkept]
    split <;> split <;> rfl

/-- The group of a route that compiles has the text of its fields. -/
theorem lookup_groupFields {group : Group} {fields : List Field}
    (hpass : ∀ p ∈ route.parameters, c.Passes p)
    (hbody : ∀ body ∈ route.body, ∃ t, c.memberText body = .ok t)
    (hfields : c.fieldsOf route group = .ok fields) (hne : fields ≠ []) :
    List.lookup group <$> (List.map (fun g => (g.1, c.groupText g.2)) <$> c.groupFields route) =
      .ok (some (c.groupText fields)) := by
  have hlocations : route.HasScalarLocations := fun p hp => (hpass p hp).2
  obtain ⟨groups, hgroups⟩ := (groupFields_ok_iff hlocations).mpr
    ⟨fun p hp => (hpass p hp).1, hbody⟩
  obtain ⟨_, all, hall, rfl⟩ := groupFields_eq_ok hlocations hgroups
  -- The fields of a group are a function of the route.
  have hsame : all group = fields := Except.ok.inj ((hall group).symm.trans hfields)
  rw [hgroups, map_ok, map_ok, lookup_groups c all (hsame ▸ hne), hsame]

/-- Of a route with one parameter in the query, all others passing, the query has the fields of this
parameter. -/
theorem lookup_query {before after : List Parameter} {p : Parameter}
    (hparameters : route.parameters = before ++ p :: after)
    (hlocation : p.location = .text "query")
    (hothers : ∀ q ∈ before ++ after, c.Passes q ∧ q.location ≠ .text "query")
    (hbody : ∀ body ∈ route.body, ∃ t, c.memberText body = .ok t) :
    List.lookup Group.query <$>
        (List.map (fun g => (g.1, c.groupText g.2)) <$> c.groupFields route) =
      (fun fields => some (c.groupText fields)) <$> c.fields p.schema := by
  -- If this parameter is at fault, so is the route, since all before it pass.
  cases hfields : c.fields p.schema with
  | error fault =>
    have hfault : c.groupFields route = .error fault := groupFields_eq_error.mpr <| .inl
      ⟨before, p, after, hparameters, fun q hq => (hothers q (List.mem_append_left _ hq)).1,
        .schema (text_eq_error.mpr hfields)⟩
    rw [hfault]
    rfl
  | ok fields =>
    -- No other parameter is sent in the query, so nothing else is gathered for it.
    have hnone : ∀ qs : List Parameter, (∀ q ∈ qs, q.location ≠ .text "query") →
        qs.filter (·.location = .text "query") = [] := by
      intro qs hqs
      simpa using hqs
    have hschemas : route.schemasOf .query = [p.schema] := by
      show (route.parameters.filter (·.location = .text "query")).map (·.schema) = [p.schema]
      rw [hparameters, List.filter_append, List.filter_cons_of_pos (by simpa using hlocation),
        hnone before fun q hq => (hothers q (List.mem_append_left _ hq)).2,
        hnone after fun q hq => (hothers q (List.mem_append_right _ hq)).2]
      rfl
    apply lookup_groupFields ?_ hbody ?_ (c.fields_ne_nil hfields)
    · intro q hq
      rw [hparameters, List.mem_append, List.mem_cons] at hq
      rcases hq with hq | rfl | hq
      · exact (hothers q (List.mem_append_left _ hq)).1
      · exact ⟨text_ok_iff.mpr ⟨fields, hfields⟩, _, hlocation⟩
      · exact (hothers q (List.mem_append_right _ hq)).1
    · rw [fieldsOf, hschemas, List.mapM_cons]
      show List.flatten <$> (c.fields p.schema >>= _) = _
      rw [hfields]
      exact congrArg Except.ok (List.append_nil fields)

/-- Of an operation whose parameters pass, the body has the fields of its schema. -/
theorem lookup_body {operation : List (String × Value)} {parameters : List Parameter}
    {place : Place} {v : Value} (hlist : Route.ListsParameters operation)
    (hparameters : Route.readParameters c.settings 0 (Route.stated operation) = .ok parameters)
    (hpass : ∀ p ∈ parameters, c.Passes p)
    (hschema : Route.bodySchema c.settings operation = .ok (some (place, v))) :
    List.lookup Group.body <$> c.compileRoute (.object operation) =
      (fun fields => some (c.groupText fields)) <$>
        (Schema.read c.settings place v >>= c.memberFields) := by
  let route (schema : Schema) : Route :=
    ⟨parameters, some schema, Value.field operation "operationId",
      Value.field operation "description"⟩
  -- Everything but the body is known to be read, so the operation is read as its body is.
  have hroute : Route.read c.settings (.object operation) =
      route <$> Schema.read c.settings place v := by
    rw [Route.read_object hlist, hparameters, ok_bind, Route.readBody_eq, hschema, ok_bind]
    exact Functor.map_map some _ _
  cases hread : Schema.read c.settings place v with
  | error fault =>
    rw [compileRoute_object, hroute, hread]
    rfl
  | ok schema =>
    rw [hread, map_ok] at hroute
    rw [compileRoute_of_read hroute, ok_bind]
    -- The parameters pass, so the fault of the route is that of its body.
    cases hfields : c.memberFields schema with
    | error fault =>
      have hfault : c.groupFields (route schema) = .error fault :=
        groupFields_eq_error.mpr (.inr ⟨hpass, schema, rfl, memberText_eq_error.mpr hfields⟩)
      rw [hfault]
      rfl
    | ok fields =>
      apply lookup_groupFields hpass ?_ ?_ (c.memberFields_ne_nil hfields)
      · rintro body ⟨⟩
        exact memberText_ok_iff.mpr ⟨fields, hfields⟩
      · rw [← bodyFields_eq]
        exact hfields

/-! ## One text -/

/-- The text of a schema as a value. -/
def valueText (c : Context) (place : Place) (v : Value) : Except Fault String :=
  (·.render c.validator) <$> (Schema.read c.settings place v >>= c.expr)

variable {entries properties : List (String × Value)}

/-- A plain object is written around its fields. -/
theorem valueText_of_states {v : Value} (hs : c.settings.HasUsualKeys)
    (hplain : PlainObject entries properties) (h : States entries v) {place : Place}
    (hlisted : place.listed = .bool false) : c.valueText place v =
      c.groupText <$> c.propertyFields (Facets.ofEntries entries).requiredNames properties := by
  rw [valueText, expr_of_states hs hplain h hlisted, Functor.map_map]
  rfl

/-- So is what refers to it. -/
theorem valueText_of_reference {v : Value} (hs : c.settings.HasUsualKeys)
    (hplain : PlainObject entries properties) (h : c.IsReferenceTo entries v) (place : Place) :
    c.valueText place v =
      c.groupText <$> c.propertyFields (Facets.ofEntries entries).requiredNames properties := by
  obtain ⟨own, rfl, hpoints⟩ := h
  rw [valueText, read_of_pointsTo hs hpoints, ok_bind, expr, Schema.expr_reference,
    hpoints.expand_eq hs hplain, Functor.map_map]
  rfl

/-- The text of an array is that of its items in its wrapper, and then its own modifiers. -/
theorem valueText_array {own : List (String × Value)} {items : Value} {place : Place}
    (hs : c.settings.HasUsualKeys) (href : (Facets.ofEntries own).reference? = none)
    (htype : (Facets.ofEntries own).type = .array)
    (hreplacement : (Facets.ofEntries own).get "x-joi-replace" = .null)
    (hitems : (Facets.ofEntries own).find? "items" = some items) (hne : items ≠ .null) :
    c.valueText place (.object own) =
      (wrapItems c.validator · ++
        Rule.chainText (((Facets.ofEntries own).commonPart place).modifiers true)) <$>
        c.valueText { path := place.itemsPath } items := by
  have hnull : ((Facets.ofEntries own).commonPart place).replacement = .null := hreplacement
  unfold valueText
  rw [Schema.read_of_items href htype hitems hne, Facets.info_eq_commonPart hs, ok_bind]
  -- If the items cannot be read, the array cannot be read either.
  cases Schema.read c.settings { path := place.itemsPath } items with
  | error fault => rfl
  | ok schema =>
    rw [map_ok, ok_bind, ok_bind, expr, Schema.expr_array_of_null c.expand hnull, Functor.map_map,
      Functor.map_map]
    rfl

/-- A body that nests a plain object, or refers to one, has its fields. -/
theorem memberFields_of_media {media : List (String × Value)} (hs : c.settings.HasUsualKeys)
    (hplain : PlainObject entries properties)
    (h : Nests entries media ∨ c.IsReferenceTo entries (.object media))
    (operation : List (String × Value)) (place : Place) :
    (Schema.read c.settings place (.object (Route.bodyEntries operation media)) >>=
        c.memberFields) =
      c.propertyFields (Facets.ofEntries entries).requiredNames properties := by
  -- None of the facets that matter is among the entries that a body is given.
  have hlookup : ∀ key ∈ ["schema", "$ref", "type", "properties", "required", "x-joi-replace"],
      (Route.bodyEntries operation media).lookup key = media.lookup key := by
    intro key hkey
    apply Route.lookup_bodyEntries
    revert key
    decide
  -- The media nest the object, and the body with them; or they refer to it, as the body does then.
  rcases h with hnests | ⟨_, ⟨⟩, hpoints⟩
  · have hbody : Nests entries (Route.bodyEntries operation media) := by
      refine ⟨?_, fun names => ?_, fun key hkey => ?_⟩
      · rw [hlookup "schema" (by simp), hnests.schema_eq]
      · rw [hlookup "required" (by simp)]
        exact hnests.required_ne names
      · rw [hlookup key (List.mem_cons_of_mem _ (by revert key; decide)), hnests.plain key hkey]
    exact memberFields_of_statesObject hs (hbody.statesObject hplain) hplain.properties_ne_nil place
  · have hdecided : (Facets.ofEntries (Route.bodyEntries operation media)).decided "$ref" =
        (Facets.ofEntries media).decided "$ref" := by
      simp only [Facets.ofEntries, Facets.decided, Value.field, hlookup "schema" (by simp),
        hlookup "$ref" (by simp)]
    rw [← hdecided] at hpoints
    rw [read_of_pointsTo hs hpoints, ok_bind]
    exact hpoints.expand_eq hs hplain _

/-- A parameter that refers to a plain object has its fields. -/
theorem fields_of_reference {e : Place × Value} {p : Parameter} (hs : c.settings.HasUsualKeys)
    (hplain : PlainObject entries properties) (h : c.IsReferenceTo entries e.2)
    (hp : Route.StatedAt c.settings e p) : c.fields p.schema =
      c.propertyFields (Facets.ofEntries entries).requiredNames properties := by
  obtain ⟨own, hown, hpoints⟩ := h
  have hread := hp.read_eq
  rw [hown, read_of_pointsTo hs hpoints] at hread
  rw [← Except.ok.inj hread]
  exact hpoints.expand_eq hs hplain _

/-- A parameter as it is stated passes, and is not sent in the query. -/
def PassesElsewhere (c : Context) (e : Place × Value) : Prop :=
  (∃ t, (Schema.read c.settings e.1 e.2 >>= c.text) = .ok t) ∧
    ∃ s, Value.field e.2.entries "in" = .scalar s ∧ s ≠ .text "query"

theorem passes_of_passesElsewhere {es : List (Place × Value)} {ps : List Parameter}
    (hall : List.Forall₂ (Route.StatedAt c.settings) es ps) (h : ∀ e ∈ es, c.PassesElsewhere e) :
    ∀ p ∈ ps, c.Passes p ∧ p.location ≠ .text "query" := by
  intro p hp
  -- Each parameter is read of one that is stated, which is sent where it says.
  obtain ⟨e, he, hstated⟩ := exists_of_mem_right hall hp
  obtain ⟨⟨t, ht⟩, s, hs, hne⟩ := h e he
  rw [hstated.read_eq, ok_bind] at ht
  rw [← hstated.location_eq] at hs
  exact ⟨⟨⟨t, ht⟩, s, hs⟩, fun hquery => hne (Value.scalar.inj (hs.symm.trans hquery))⟩

/-- The query of an operation that states one parameter for it, all others passing, has the fields
of this parameter. -/
theorem lookup_query_of_placed {operation : List (String × Value)}
    {before after : List (Place × Value)} {e : Place × Value} (hs : c.settings.HasUsualKeys)
    (hplain : PlainObject entries properties)
    (hread : ∃ route, Route.read c.settings (.object operation) = .ok route)
    (hplaced : Route.placed operation = before ++ e :: after) (h : c.IsReferenceTo entries e.2)
    (hlocation : Value.field e.2.entries "in" = .text "query")
    (hothers : ∀ f ∈ before ++ after, c.PassesElsewhere f)
    (hbody : c.StatedBodyCompiles operation) :
    List.lookup Group.query <$> c.compileRoute (.object operation) =
      (fun fields => some (c.groupText fields)) <$>
        c.propertyFields (Facets.ofEntries entries).requiredNames properties := by
  obtain ⟨route, hread⟩ := hread
  have hall := Route.forall₂_placed hread
  rw [hplaced] at hall
  obtain ⟨ps, p, qs, hparameters, hps, hp, hqs⟩ := exists_of_forall₂_append_cons hall
  -- What is stated on both sides of the parameter tells about the route on both sides.
  have hpassed : ∀ q ∈ ps ++ qs, c.Passes q ∧ q.location ≠ .text "query" := by
    intro q hq
    rcases List.mem_append.mp hq with hq | hq
    · exact passes_of_passesElsewhere hps (fun f hf => hothers f (List.mem_append_left _ hf)) q hq
    · exact passes_of_passesElsewhere hqs (fun f hf => hothers f (List.mem_append_right _ hf)) q hq
  rw [compileRoute_of_read hread, lookup_query hparameters (hp.location_eq.trans hlocation) hpassed
    ((bodyCompiles_iff_stated hread).mpr hbody), fields_of_reference hs hplain h hp]

/-- A plain object as a field has its text under its key. -/
theorem text_of_states {v : Value} (hs : c.settings.HasUsualKeys)
    (hplain : PlainObject entries properties) (h : States entries v) {place : Place}
    (hlisted : place.listed = .bool false) {key : String}
    (hkey : FieldName.key (if place.name.isNull then Value.field v.entries "name"
      else place.name) = .ok key) : (Schema.read c.settings place v >>= c.text) =
      fieldText key <$> c.valueText { path := .null } (.object entries) := by
  have htext : (Schema.read c.settings place v >>= c.text) =
      renderFields c.validator <$> (Schema.read c.settings place v >>= c.fields) :=
    (map_bind _ _ _).symm
  rw [htext, fields_of_states hs hplain h hlisted hkey, Functor.map_map,
    valueText_of_states hs hplain .itself rfl, Functor.map_map]
  congr 1
  funext fields
  exact renderFields_singleton _ _ _

/-- A plain object has one text, or one fault. The body of a route has this text, whether it is the
object itself or refers to it; so has the query, if one of its parameters refers to the object and
no other is sent there. The items of an array have this text, in either form; and it stands under
the key of a property or a parameter that does not have to be given. -/
theorem plainObject_one_text (c : Context) (entries properties : List (String × Value))
    (hs : c.settings.HasUsualKeys) (hplain : PlainObject entries properties) :
    (∀ operation media parameters, Route.ListsParameters operation →
      Route.readParameters c.settings 0 (Route.stated operation) = .ok parameters →
      (∀ p ∈ parameters, c.Passes p) →
      Route.media c.settings (Value.field operation "requestBody") = .ok (.object media) →
      Nests entries media ∨ c.IsReferenceTo entries (.object media) →
      List.lookup Group.body <$> c.compileRoute (.object operation) =
        some <$> c.valueText { path := .null } (.object entries)) ∧
    (∀ operation before e after,
      (∃ route, Route.read c.settings (.object operation) = .ok route) →
      Route.placed operation = before ++ e :: after → c.IsReferenceTo entries e.2 →
      Value.field e.2.entries "in" = .text "query" →
      (∀ f ∈ before ++ after, c.PassesElsewhere f) → c.StatedBodyCompiles operation →
      List.lookup Group.query <$> c.compileRoute (.object operation) =
        some <$> c.valueText { path := .null } (.object entries)) ∧
    (∀ place own items, (Facets.ofEntries own).reference? = none →
      (Facets.ofEntries own).type = .array →
      (Facets.ofEntries own).get "x-joi-replace" = .null →
      (Facets.ofEntries own).find? "items" = some items →
      States entries items ∨ c.IsReferenceTo entries items →
      c.valueText place (.object own) =
        (wrapItems c.validator · ++
          Rule.chainText (((Facets.ofEntries own).commonPart place).modifiers true)) <$>
          c.valueText { path := .null } (.object entries)) ∧
    (∀ (place : Place) required key v, Value.text key ∉ required → States entries v →
      (Schema.read c.settings (place.property required key) v >>= c.text) =
        fieldText (FieldName.quote key) <$> c.valueText { path := .null } (.object entries)) ∧
    ∀ position v key, States entries v →
      FieldName.key (Value.field v.entries "name") = .ok key →
      (Route.readParameter c.settings position v >>= fun p => c.text p.schema) =
        fieldText key <$> c.valueText { path := .null } (.object entries) := by
  -- Every position comes down to the fields of the properties, which depend on no position.
  have hvalue : c.valueText { path := .null } (.object entries) =
      c.groupText <$> c.propertyFields (Facets.ofEntries entries).requiredNames properties :=
    valueText_of_states hs hplain .itself rfl
  refine ⟨?body, ?query, ?items, ?property, ?parameter⟩
  case body =>
    intro operation media parameters hlist hparameters hpass hmedia h
    have hschema := Route.bodySchema_of_statesBody (Route.statesBody_iff.mpr hmedia)
    rw [lookup_body hlist hparameters hpass hschema, memberFields_of_media hs hplain h, hvalue,
      Functor.map_map]
  case query =>
    intro operation before e after hread hplaced h hlocation hothers hbody
    rw [lookup_query_of_placed hs hplain hread hplaced h hlocation hothers hbody, hvalue,
      Functor.map_map]
  case items =>
    intro place own items href htype hreplacement hitems h
    have hne : items ≠ .null := by
      rintro rfl
      rcases h with h | ⟨own, hown, _⟩
      · cases h
      · cases hown
    rw [valueText_array hs href htype hreplacement hitems hne, hvalue]
    rcases h with h | h
    · rw [valueText_of_states hs hplain h rfl]
    · rw [valueText_of_reference hs hplain h]
  case property =>
    intro place required key v hkey h
    have hlisted : (place.property required key).listed = .bool false :=
      congrArg Value.bool (by simpa using hkey)
    exact text_of_states hs hplain h hlisted (FieldName.key_text key)
  case parameter =>
    intro position v key h hkey
    rw [Route.readParameter_eq, bind_map_left]
    exact text_of_states hs hplain h rfl hkey

/-! ## A garden -/

def bedProperties : List (String × Value) :=
  [("plant", .object [("type", .text "string")]), ("depth", .object [("type", .text "number")])]

/-- A bed, which has to have a plant. -/
def bed : List (String × Value) :=
  [("type", .text "object"), ("required", .list [.text "plant"]),
   ("properties", .object bedProperties)]

/-- A catalogue in which a plot is another name for a bed. -/
def garden : Context where
  settings := {}
  catalogue := .ofList
    [(.text "Plot", .object [("$ref", .text "#/components/schemas/Bed")]),
     (.text "Bed", .object bed)]

def plot : Value := .object [("$ref", .text "#/components/schemas/Plot")]

/-- An operation with this schema as its body. -/
def planting (schema : Value) : List (String × Value) :=
  [("operationId", .text "plant"), ("description", .text "plants a bed"),
   ("requestBody", .object [("content", .object [("application/json", .object
     [("schema", schema)])])])]

/-- A parameter of the header, and the place where it stands. -/
def language : Place × Value :=
  (Route.parameterPlace 0,
   .object [("name", .text "lang"), ("in", .text "header"), ("type", .text "string")])

/-- A parameter of the query that refers to a plot, and the place where it stands. -/
def plotQuery : Place × Value :=
  (Route.parameterPlace 1,
   .object [("in", .text "query"), ("$ref", .text "#/components/schemas/Plot")])

/-- An operation that asks for a plot. -/
def finding : List (String × Value) := [("parameters", .list [language.2, plotQuery.2])]

/-- A parameter that states a bed under `schema`. -/
def bedParameter : Value :=
  .object [("name", .text "bed"), ("in", .text "query"), ("schema", .object bed)]

/-- The text of a bed, wherever it stands. -/
def bedText : String :=
  "Joi.object().keys(\x7b\n    plant: Joi.string().required(),\n    depth: Joi.number()\n  \x7d)"

theorem isReferenceTo_of_plot {own : List (String × Value)}
    (h : (Facets.ofEntries own).decided "$ref" = .text "#/components/schemas/Plot") :
    garden.IsReferenceTo bed (.object own) := by
  have hplot : garden.settings.componentName (.text "#/components/schemas/Plot") = .ok "Plot" := by
    decide +kernel
  have hbed : garden.settings.componentName (.text "#/components/schemas/Bed") = .ok "Bed" := by
    decide +kernel
  refine ⟨own, rfl, ?_⟩
  rw [h]
  exact .alias hplot rfl (.component hbed rfl)

/-- A bed has one text: as a body, in itself or as a plot, as a plot in the query, as a plot among
the items of an array, as a property and as a parameter. -/
theorem plainObject_one_text_garden :
    garden.settings.HasUsualKeys ∧ PlainObject bed bedProperties ∧
      garden.valueText { path := .null } (.object bed) = .ok bedText ∧
      (∀ schema ∈ [.object bed, plot], List.lookup Group.body <$>
        garden.compileRoute (.object (planting schema)) = .ok (some bedText)) ∧
      List.lookup Group.query <$> garden.compileRoute (.object finding) = .ok (some bedText) ∧
      garden.valueText { path := .null } (.object [("type", .text "array"), ("items", plot)]) =
        .ok (wrapItems "Joi" bedText) ∧
      (Schema.read garden.settings (Place.property { path := .null } [] "bed") (.object bed) >>=
        garden.text) = .ok (fieldText "bed" bedText) ∧
      (Route.readParameter garden.settings 0 bedParameter >>= fun p => garden.text p.schema) =
        .ok (fieldText "bed" bedText) := by
  have hs : garden.settings.HasUsualKeys := ⟨rfl, rfl⟩
  have hplain : PlainObject bed bedProperties :=
    ⟨rfl, nofun, .inr rfl, .inr ⟨_, rfl⟩, by decide +kernel⟩
  have htext : garden.valueText { path := .null } (.object bed) = .ok bedText := by
    decide +kernel
  have hplot : garden.IsReferenceTo bed plot := isReferenceTo_of_plot rfl
  have hquote : FieldName.quote "bed" = "bed" := by decide +kernel
  obtain ⟨hbody, hquery, hitems, hproperty, hparameter⟩ :=
    plainObject_one_text garden bed bedProperties hs hplain
  rw [htext] at hbody hquery hitems hproperty hparameter
  -- A body is named by its operation and described by it; neither shows in its text.
  have hplanting : ∀ schema : Value, Nests bed [("schema", schema)] ∨
      garden.IsReferenceTo bed (.object [("schema", schema)]) →
      List.lookup Group.body <$> garden.compileRoute (.object (planting schema)) =
        .ok (some bedText) := fun schema =>
    hbody (planting schema) [("schema", schema)] [] (.inl rfl) rfl (List.forall_mem_nil _) rfl
  refine ⟨hs, hplain, htext, ?bodies, ?query, ?items, ?property, ?parameter⟩
  case bodies =>
    intro schema hschema
    rcases List.mem_pair.mp hschema with rfl | rfl
    · exact hplanting _ (.inl ⟨rfl, nofun, by decide +kernel⟩)
    · exact hplanting _ (.inr (isReferenceTo_of_plot rfl))
  case query =>
    have hlanguage : garden.PassesElsewhere language :=
      ⟨by decide +kernel, _, rfl, by decide⟩
    have hnone : garden.StatedBodyCompiles finding := by
      rintro _ ⟨_, _, _, _, hrequest, _⟩
      cases hrequest
    exact hquery finding [language] plotQuery [] (by decide +kernel) rfl
      (isReferenceTo_of_plot rfl) rfl (List.forall_mem_singleton.mpr hlanguage) hnone
  case items =>
    rw [hitems _ _ plot rfl rfl rfl rfl (.inr hplot)]
    exact congrArg Except.ok (String.append_empty)
  case property =>
    rw [hproperty _ [] "bed" _ List.not_mem_nil .itself, hquote]
    rfl
  case parameter =>
    exact hparameter 0 bedParameter "bed"
      (.nested ⟨rfl, nofun, by decide +kernel⟩ nofun rfl rfl) (by decide +kernel)

end Context

end RouteRules
