import RouteRules.Route.Groups
import RouteRules.Proofs.Expr.Pieces
import RouteRules.Proofs.WellFormed

/-!
# The groups of a route

What a compiled route is made of. Every parameter has to compile, also one whose location has no
group. A group is there if a parameter of its location is, and its fields are those of these
parameters in order.

## Main definitions

- `Route.schemasOf`, `Context.fieldsIn`: the schemas of a group, and what they contribute to it.

## Main statements

- `Schema.fields_ne_nil`: a schema that compiles contributes at least one field.
- `Context.groupFields_eq`: the groups of a route whose parameters compile.
- `Context.groupFields_eq_ok`, `Context.groupFields_ok_iff`: when there are groups, and which.
-/

namespace RouteRules

/-! ## Whatever compiles has a field -/

section Nonempty

variable {expand : Expansion} {fields : List Field}

theorem Info.fields_ne_nil {info : Info} {value : Except Fault Expr}
    (h : info.fields value = .ok fields) : fields ≠ [] := by
  obtain ⟨e, _, h⟩ := bind_eq_ok.mp h
  obtain ⟨key, _, h⟩ := bind_eq_ok.mp h
  cases h
  exact List.cons_ne_nil _ _

namespace Schema

/-- A schema contributes at least one field, if references do. -/
theorem fields_ne_nil {schema : Schema}
    (hexpand : ∀ r fields, expand r = .ok fields → fields ≠ [])
    (h : schema.fields expand = .ok fields) : fields ≠ [] := by
  -- A schema that is no reference has one field.
  cases href : schema.isReference with
  | true =>
    cases schema with
    | reference info target => exact hexpand target fields h
    | _ => cases href
  | false =>
    rw [fields_of_not_reference _ href] at h
    exact Info.fields_ne_nil h

theorem fieldsOfAll_ne_nil {first : Schema} {rest : List Schema}
    (hexpand : ∀ r fields, expand r = .ok fields → fields ≠ [])
    (h : fieldsOfAll expand (first :: rest) = .ok fields) : fields ≠ [] := by
  rw [fieldsOfAll_cons] at h
  obtain ⟨own, hown, h⟩ := bind_eq_ok.mp h
  obtain ⟨others, _, h⟩ := bind_eq_ok.mp h
  cases h
  exact List.append_ne_nil_of_left_ne_nil (fields_ne_nil hexpand hown) _

end Schema

namespace Context

variable {c : Context} {schema : Schema}

/-- A reference stands for at least one field, however many references it takes to get there. -/
theorem expandWithin_ne_nil {limit : Nat} (r : Reference) (fields : List Field)
    (h : c.expandWithin limit r = .ok fields) : fields ≠ [] := by
  induction limit generalizing r fields with
  | zero =>
    obtain ⟨_, _, hendless⟩ := bind_eq_ok.mp h
    cases hendless
  | succ limit ih =>
    obtain ⟨content, _, h⟩ := bind_eq_ok.mp h
    cases content with
    | «alias» target => exact ih target fields h
    | properties first rest => exact Schema.fieldsOfAll_ne_nil ih h

theorem fields_ne_nil (h : c.fields schema = .ok fields) : fields ≠ [] :=
  Schema.fields_ne_nil expandWithin_ne_nil h

theorem memberFields_ne_nil (h : c.memberFields schema = .ok fields) : fields ≠ [] := by
  unfold memberFields Schema.memberFields at h
  -- An object has the fields of its properties, everything else those that it has as a field.
  split at h
  · rename_i info properties
    split at h
    · cases properties with
      | nil => cases h
      | cons first rest => exact Schema.fieldsOfAll_ne_nil expandWithin_ne_nil h
    · exact c.fields_ne_nil h
  · split at h
    · cases h
    · exact c.fields_ne_nil h
  · exact c.fields_ne_nil h

end Context

end Nonempty

/-! ## Locations -/

instance (v : Value) : Decidable (∃ s, v = .scalar s) :=
  match v with
  | .scalar s => .isTrue ⟨s, rfl⟩
  | .list _ => .isFalse nofun
  | .object _ => .isFalse nofun

/-- The location of every parameter can be compared with the names of groups. -/
def Route.HasScalarLocations (route : Route) : Prop :=
  ∀ p ∈ route.parameters, ∃ s, p.location = .scalar s

instance (route : Route) : Decidable route.HasScalarLocations :=
  inferInstanceAs (Decidable (∀ p ∈ route.parameters, ∃ s, p.location = .scalar s))

/-- The schemas that contribute to a group, in order of declaration. -/
def Route.schemasOf (route : Route) : Group → List Schema
  | .body => route.body.toList
  | group => (route.parameters.filter (·.location = .text group.name)).map (·.schema)

theorem Route.schemasOf_eq (route : Route) {group : Group} (hgroup : group ≠ .body) :
    route.schemasOf group =
      (route.parameters.filter (·.location = .text group.name)).map (·.schema) := by
  cases group with
  | body => exact absurd rfl hgroup
  | query | path => rfl

namespace Group

theorem ofLocation_ok (s : Scalar) : ∃ group, ofLocation (.scalar s) = .ok group := by
  unfold ofLocation
  split
  · exact ⟨_, rfl⟩
  · exact ⟨_, rfl⟩
  · exact ⟨_, rfl⟩
  · rename_i hother
    exact absurd rfl (hother s)

/-- The parameters of a group are those of the location that it is called after. -/
theorem ofLocation_eq_some {location : Value} {found : Option Group} {group : Group}
    (hgroup : group ≠ .body) (h : ofLocation location = .ok found) :
    found = some group ↔ location = .text group.name := by
  unfold ofLocation at h
  split at h
  · cases h
    cases group <;> simp_all [name]
  · cases h
    cases group <;> simp_all [name]
  · rename_i hquery hpath
    cases h
    cases group <;> simp_all [name]
  · cases h

end Group

namespace Context

variable {c : Context} {route : Route}

/-- The text of a schema that is a group of its own. -/
def memberText (c : Context) (schema : Schema) : Except Fault String :=
  renderFields c.validator <$> c.memberFields schema

/-- The fields that a schema contributes to a group: those of the body are the group itself. -/
def fieldsIn (c : Context) : Group → Schema → Except Fault (List Field)
  | .body => c.memberFields
  | _ => c.fields

theorem fieldsIn_eq (c : Context) {group : Group} (hgroup : group ≠ .body) :
    c.fieldsIn group = c.fields := by
  cases group with
  | body => exact absurd rfl hgroup
  | query | path => rfl

/-- The fields of a group. -/
def fieldsOf (c : Context) (route : Route) (group : Group) : Except Fault (List Field) :=
  List.flatten <$> (route.schemasOf group).mapM (c.fieldsIn group)

/-- The parameters compile, wherever they are sent. -/
def ParametersCompile (c : Context) (route : Route) : Prop :=
  ∀ p ∈ route.parameters, ∃ t, c.text p.schema = .ok t

instance (c : Context) (route : Route) : Decidable (c.ParametersCompile route) :=
  inferInstanceAs (Decidable (∀ p ∈ route.parameters, ∃ t, c.text p.schema = .ok t))

theorem text_ok_iff {schema : Schema} :
    (∃ t, c.text schema = .ok t) ↔ ∃ fields, c.fields schema = .ok fields := by
  unfold text
  cases c.fields schema <;> simp

theorem memberText_ok_iff {schema : Schema} :
    (∃ t, c.memberText schema = .ok t) ↔ ∃ fields, c.memberFields schema = .ok fields := by
  unfold memberText
  cases c.memberFields schema <;> simp

theorem parameterFields_eq_ok {p : Parameter} {found : Option Group} {fields : List Field} :
    c.parameterFields p = .ok (found, fields) ↔
      c.fields p.schema = .ok fields ∧ Group.ofLocation p.location = .ok found := by
  unfold parameterFields
  cases c.fields p.schema with
  | error fault => simp
  | ok own =>
    cases Group.ofLocation p.location with
    | error fault => simp
    | ok group => simp [and_comm]

/-! ## Gathering the fields of a group -/

/-- The fields that are gathered for a group are those of the parameters of its location. -/
theorem gather_eq {parameters : List Parameter} {compiled : List (Option Group × List Field)}
    {group : Group} (hgroup : group ≠ .body)
    (h : List.Forall₂ (fun p r => c.parameterFields p = .ok r) parameters compiled) :
    ∃ own, ((parameters.filter (·.location = .text group.name)).map (·.schema)).mapM c.fields =
      .ok own ∧ group.gather compiled = own.flatten := by
  -- On the parameters, side by side with what they are compiled to.
  induction h with
  | nil => exact ⟨[], rfl, rfl⟩
  | @cons p r parameters compiled hfirst _ ih =>
    obtain ⟨found, fields⟩ := r
    obtain ⟨hfields, hlocation⟩ := parameterFields_eq_ok.mp hfirst
    obtain ⟨own, hown, hgather⟩ := ih
    have hcons : group.gather ((found, fields) :: compiled) =
        (if found = some group then fields else []) ++ own.flatten := by
      rw [← hgather]
      rfl
    -- Parameters of other locations have compiled too, but nothing of them is gathered.
    by_cases hp : p.location = .text group.name
    · refine ⟨fields :: own, ?_, ?_⟩
      · rw [List.filter_cons_of_pos (by simpa using hp), List.map_cons, List.mapM_cons, hfields,
          hown]
        rfl
      · rw [hcons, if_pos ((Group.ofLocation_eq_some hgroup hlocation).mpr hp), List.flatten_cons]
    · refine ⟨own, ?_, ?_⟩
      · rw [List.filter_cons_of_neg (by simpa using hp), hown]
      · rw [hcons, if_neg (mt (Group.ofLocation_eq_some hgroup hlocation).mp hp), List.nil_append]

theorem parameterFields_ok (hlocations : route.HasScalarLocations)
    (hcompile : c.ParametersCompile route) :
    ∀ p ∈ route.parameters, ∃ r, c.parameterFields p = .ok r := by
  intro p hp
  obtain ⟨fields, hfields⟩ := text_ok_iff.mp (hcompile p hp)
  obtain ⟨s, hs⟩ := hlocations p hp
  obtain ⟨found, hfound⟩ := Group.ofLocation_ok s
  exact ⟨(found, fields), parameterFields_eq_ok.mpr ⟨hfields, hs ▸ hfound⟩⟩

/-- If the parameters of a route compile, its groups are made of the fields of the query, of the
path and of the body, as far as there are any. -/
theorem groupFields_eq (hlocations : route.HasScalarLocations)
    (hcompile : c.ParametersCompile route) :
    ∃ query path, c.fieldsOf route .query = .ok query ∧ c.fieldsOf route .path = .ok path ∧
      c.groupFields route = (fun body =>
        [(Group.query, query), (.path, path), (.body, body)].filter fun g => !g.2.isEmpty) <$>
          c.bodyFields route.body := by
  -- All parameters compile, so the walk over them has a result, from which both groups are
  -- gathered.
  obtain ⟨compiled, hcompiled⟩ := exists_mapM_eq_ok (parameterFields_ok hlocations hcompile)
  have hall := mapM_eq_ok.mp hcompiled
  obtain ⟨query, hquery, hgatherQuery⟩ := gather_eq (show Group.query ≠ .body by decide) hall
  obtain ⟨path, hpath, hgatherPath⟩ := gather_eq (show Group.path ≠ .body by decide) hall
  refine ⟨query.flatten, path.flatten, ?_, ?_, ?_⟩
  · exact congrArg (List.flatten <$> ·) hquery
  · exact congrArg (List.flatten <$> ·) hpath
  · rw [groupFields, hcompiled, ok_bind, hgatherQuery, hgatherPath]
    exact bind_ok_eq_map _ _

/-- A route without a body has no schema for its group. -/
theorem bodyFields_eq (c : Context) (route : Route) :
    c.bodyFields route.body = c.fieldsOf route .body := by
  unfold fieldsOf Route.schemasOf
  cases route.body with
  | none => rfl
  | some schema =>
    show c.memberFields schema = List.flatten <$> [schema].mapM c.memberFields
    rw [List.mapM_cons]
    cases c.memberFields schema with
    | error fault => rfl
    | ok fields => exact congrArg Except.ok (List.append_nil fields).symm

theorem fieldsIn_ne_nil {group : Group} {schema : Schema} {fields : List Field}
    (h : c.fieldsIn group schema = .ok fields) : fields ≠ [] := by
  cases group with
  | body => exact c.memberFields_ne_nil h
  | query | path => exact c.fields_ne_nil h

/-- A group has a field exactly if something contributes to it. -/
theorem fieldsOf_ne_nil_iff {group : Group} {fields : List Field}
    (h : c.fieldsOf route group = .ok fields) : fields ≠ [] ↔ route.schemasOf group ≠ [] := by
  obtain ⟨own, hown, rfl⟩ := map_eq_ok.mp h
  have hall := mapM_eq_ok.mp hown
  cases hschemas : route.schemasOf group with
  | nil =>
    rw [hschemas] at hall
    cases hall
    simp
  | cons schema rest =>
    rw [hschemas] at hall
    cases hall with
    | cons hfirst _ =>
      -- The first schema contributes at least one field.
      rw [List.flatten_cons]
      exact iff_of_true (List.append_ne_nil_of_left_ne_nil (fieldsIn_ne_nil hfirst) _)
        (List.cons_ne_nil _ _)

/-- Which groups there are, and with which fields. -/
theorem groupFields_eq_ok {groups : List (Group × List Field)}
    (hlocations : route.HasScalarLocations) (h : c.groupFields route = .ok groups) :
    c.ParametersCompile route ∧ ∃ fields : Group → List Field,
      (∀ group, c.fieldsOf route group = .ok (fields group)) ∧
      groups = ([.query, .path, .body].map fun group => (group, fields group)).filter
        fun g => !g.2.isEmpty := by
  have hcompile : c.ParametersCompile route := by
    intro p hp
    obtain ⟨compiled, hcompiled, _⟩ := bind_eq_ok.mp h
    obtain ⟨⟨found, fields⟩, hfields⟩ := exists_of_mapM_eq_ok hcompiled hp
    exact text_ok_iff.mpr ⟨fields, (parameterFields_eq_ok.mp hfields).1⟩
  obtain ⟨query, path, hquery, hpath, hgroups⟩ := groupFields_eq hlocations hcompile
  rw [hgroups, bodyFields_eq] at h
  obtain ⟨body, hbody, rfl⟩ := map_eq_ok.mp h
  refine ⟨hcompile, fun group => group.casesOn query path body, ?_, rfl⟩
  intro group
  cases group with
  | query => exact hquery
  | path => exact hpath
  | body => exact hbody

/-- A route has groups exactly if all its parameters compile, and its body does. -/
theorem groupFields_ok_iff (hlocations : route.HasScalarLocations) :
    (∃ groups, c.groupFields route = .ok groups) ↔
      c.ParametersCompile route ∧ ∀ body ∈ route.body, ∃ t, c.memberText body = .ok t := by
  constructor
  · rintro ⟨groups, h⟩
    obtain ⟨hcompile, fields, hfields, _⟩ := groupFields_eq_ok hlocations h
    refine ⟨hcompile, fun body hbody => memberText_ok_iff.mpr ?_⟩
    have hown := hfields .body
    rw [← bodyFields_eq, hbody] at hown
    exact ⟨_, hown⟩
  · rintro ⟨hcompile, hbody⟩
    obtain ⟨query, path, _, _, hgroups⟩ := groupFields_eq hlocations hcompile
    rw [hgroups]
    -- Without a body nothing is left to fail.
    cases hroute : route.body with
    | none => exact ⟨_, rfl⟩
    | some body =>
      obtain ⟨fields, hfields⟩ := memberText_ok_iff.mp (hbody body hroute)
      exact ⟨_, by rw [bodyFields, hfields, map_ok]⟩

/-! ## The text of a group -/

theorem groupText_eq (c : Context) (fields : List Field) :
    c.groupText fields = objectText c.validator (fields.map (pieceText c.validator)) := by
  rw [groupText, Expr.render, wrapFields_renderFields]
  exact String.append_empty

/-- A route is read, and then its groups are written. -/
theorem compileRoute_object (c : Context) (operation : List (String × Value)) :
    c.compileRoute (.object operation) =
      Route.read c.settings (.object operation) >>= fun route =>
        List.map (fun g => (g.1, c.groupText g.2)) <$> c.groupFields route := by
  show c.compileEntries operation = Route.ofEntries c.settings operation >>= _
  unfold compileEntries
  exact bind_congr fun route => bind_ok_eq_map _ _

/-- What a route is compiled to, once it has been read. -/
theorem compileRoute_of_read {operation : List (String × Value)}
    (hread : Route.read c.settings (.object operation) = .ok route) :
    c.compileRoute (.object operation) =
      List.map (fun g => (g.1, c.groupText g.2)) <$> c.groupFields route := by
  rw [compileRoute_object, hread, ok_bind]

theorem mem_groups_iff {fields : Group → List Field} {group : Group} {text : String} :
    (group, text) ∈ (([.query, .path, .body].map fun group => (group, fields group)).filter
        fun g => !g.2.isEmpty).map (fun g => (g.1, c.groupText g.2)) ↔
      fields group ≠ [] ∧ text = c.groupText (fields group) := by
  simp only [List.mem_map, List.mem_filter, Prod.mk.injEq, Bool.not_eq_true',
    List.isEmpty_eq_false_iff]
  constructor
  · rintro ⟨_, ⟨⟨found, _, rfl⟩, hne⟩, rfl, rfl⟩
    exact ⟨hne, rfl⟩
  · rintro ⟨hne, rfl⟩
    exact ⟨_, ⟨⟨group, by cases group <;> simp, rfl⟩, hne⟩, rfl, rfl⟩

theorem schemasOf_ne_nil_iff {group : Group} (hgroup : group ≠ .body) :
    route.schemasOf group ≠ [] ↔ ∃ p ∈ route.parameters, p.location = .text group.name := by
  rw [route.schemasOf_eq hgroup, ne_eq, List.map_eq_nil_iff, List.filter_eq_nil_iff]
  simp

/-- A group is there exactly if something contributes to it. -/
theorem mem_keys_iff {fields : Group → List Field}
    (hfields : ∀ group, c.fieldsOf route group = .ok (fields group)) (group : Group) :
    group ∈ List.map (·.1) (List.map (fun g => (g.1, c.groupText g.2))
      (([.query, .path, .body].map fun group => (group, fields group)).filter
        fun g => !g.2.isEmpty)) ↔ route.schemasOf group ≠ [] := by
  rw [← fieldsOf_ne_nil_iff (hfields group)]
  constructor
  · intro hgroup
    obtain ⟨⟨_, text⟩, hg, rfl⟩ := List.mem_map.mp hgroup
    exact (mem_groups_iff.mp hg).1
  · intro hne
    exact List.mem_map.mpr ⟨_, mem_groups_iff.mpr ⟨hne, rfl⟩, rfl⟩

end Context

end RouteRules
