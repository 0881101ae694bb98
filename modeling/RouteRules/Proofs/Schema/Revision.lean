import RouteRules.Proofs.Schema.Typed

/-!
# Schemas that are revised after their first fault

A schema is read, and later it is compiled, up to the first fault. Whatever stands after this fault
has not been looked at, so it can be replaced by anything else without another fault coming out. The
fault can lie deep inside: in the items of an array or in one property of an object, where all
properties before it pass.

## Main definitions

- `Phase`: the reading or the compiling of schemas.
- `Phase.Revises`: two values that are the same up to a fault.

## Main statements

- `Phase.Revises.symm`: neither of the two is the original.
- `Schema.read_of_revises`: both fail alike when they are read.
- `Context.expr_of_revises`: both fail alike when they are compiled.
-/

namespace RouteRules

/-! ## Faults of one node -/

namespace Schema

variable (expand : Expansion)

/-- Properties are read in order, up to the first that cannot be read. -/
theorem readProperties_eq_error {s : Settings} {place : Place} {required : List Value}
    {properties : List (String × Value)} {fault : Fault} :
    readProperties s place required properties = .error fault ↔
      FirstFails (fun e => read s (place.property required e.1) e.2) properties fault := by
  rw [readProperties_eq_mapM, firstFails_iff]

/-- Schemas are compiled in order, up to the first that fails. -/
theorem fieldsOfAll_eq_error {schemas : List Schema} {fault : Fault} :
    fieldsOfAll expand schemas = .error fault ↔ FirstFails (fields expand) schemas fault := by
  rw [fieldsOfAll_eq_mapM, map_eq_error, firstFails_iff]

/-- A schema whose expression is a fault contributes no field. -/
theorem fields_eq_error {schema : Schema} {fault : Fault}
    (h : schema.expr expand = .error fault) : schema.fields expand = .error fault := by
  -- A reference is expanded in both ways of compiling it; any other schema needs its expression for
  -- its field.
  cases href : schema.isReference with
  | true =>
    cases schema with
    | reference info target =>
      rw [expr_reference] at h
      exact map_eq_error.mp h
    | _ => cases href
  | false => rw [fields_of_not_reference expand href, Info.fields, h, error_bind]

/-- Nor is it a group of its own. -/
theorem memberFields_eq_error {schema : Schema} {fault : Fault}
    (h : schema.expr expand = .error fault) : schema.memberFields expand = .error fault := by
  -- As a group of its own, an object with properties fails in them, and every other schema as a
  -- field.
  by_cases hgroup : ∃ info first rest, schema = .object info (first :: rest) ∧
      info.replacement = .null
  · obtain ⟨info, first, rest, rfl, hnull⟩ := hgroup
    rw [expr_object_of_null expand hnull (List.cons_ne_nil first rest)] at h
    rw [memberFields_object expand hnull (List.cons_ne_nil first rest)]
    exact map_eq_error.mp h
  · rw [memberFields_eq_fields]
    · exact fields_eq_error expand h
    · intro info first rest hobject hnull
      exact hgroup ⟨info, first, rest, hobject, hnull⟩

/-- A schema with an expression and a text as its name contributes fields. -/
theorem exists_fields {schema : Schema} {key : String} {e : Expr}
    (hname : schema.info.name = .text key) (h : schema.expr expand = .ok e) :
    ∃ fields, schema.fields expand = .ok fields := by
  cases href : schema.isReference with
  | true =>
    cases schema with
    | reference info target =>
      rw [expr_reference] at h
      obtain ⟨fields, hfields, _⟩ := map_eq_ok.mp h
      exact ⟨fields, hfields⟩
    | _ => cases href
  | false =>
    have htext : schema.info.name.isOptionalText = true := by
      rw [hname]
      rfl
    obtain ⟨written, hwritten⟩ := FieldName.key_ok htext
    rw [fields_of_not_reference expand href, Info.fields, h, ok_bind, hwritten]
    exact ⟨_, rfl⟩

end Schema

/-! ## Phases -/

/-- A part of a compilation: which schemas pass, which fail, and which ones it looks into. A schema
that is a property passes as a field too, since its key is a text. -/
structure Phase where
  settings : Settings
  Passes : Place → Value → Prop
  Fails : Place → Value → Fault → Prop
  LooksInto : Info → Prop

namespace Phase

/-- The reading of schemas. -/
def reading (s : Settings) : Phase where
  settings := s
  Passes place v := ∃ schema, Schema.read s place v = .ok schema
  Fails place v fault := Schema.read s place v = .error fault
  LooksInto _ := True

/-- The compiling of schemas that have been read. What has a replacement is not looked into. -/
def compiling (c : Context) : Phase where
  settings := c.settings
  Passes place v :=
    ∃ schema, Schema.read c.settings place v = .ok schema ∧ ∃ e, c.expr schema = .ok e
  Fails place v fault :=
    ∃ schema, Schema.read c.settings place v = .ok schema ∧ c.expr schema = .error fault
  LooksInto info := info.replacement = .null

/-- The schema with these entries has the type and is looked into. -/
structure Opens (phase : Phase) (type : SchemaType) (place : Place)
    (entries : List (String × Value)) : Prop where
  reference_eq : (Facets.ofEntries entries).reference? = none
  type_eq : (Facets.ofEntries entries).type = type
  info : ∃ info, (Facets.ofEntries entries).info phase.settings place = .ok info ∧
    phase.LooksInto info

/-- Two schemas at one place are the same up to a fault: either they are the same and at fault, or
the fault is in their items, or it is in a property before which all others pass and are the same in
both. What stands after this property does not count. -/
inductive Revises (phase : Phase) (fault : Fault) : Place → Value → Value → Prop where
  | same {place : Place} {v : Value} : phase.Fails place v fault → Revises phase fault place v v
  | items {place : Place} {entries others : List (String × Value)} {v w : Value} :
      phase.Opens .array place entries → phase.Opens .array place others →
      (Facets.ofEntries entries).find? "items" = some v →
      (Facets.ofEntries others).find? "items" = some w → v ≠ .null → w ≠ .null →
      Revises phase fault { path := place.itemsPath } v w →
      Revises phase fault place (.object entries) (.object others)
  | property {place : Place} {entries others before after after' : List (String × Value)}
      {required : List Value} {key : String} {v w : Value} :
      phase.Opens .object place entries → phase.Opens .object place others →
      (Facets.ofEntries entries).requiredNames = required →
      (Facets.ofEntries others).requiredNames = required →
      (Facets.ofEntries entries).find? "properties" =
        some (.object (before ++ (key, v) :: after)) →
      (Facets.ofEntries others).find? "properties" =
        some (.object (before ++ (key, w) :: after')) →
      (∀ e ∈ before, phase.Passes (place.property required e.1) e.2) →
      Revises phase fault (place.property required key) v w →
      Revises phase fault place (.object entries) (.object others)

variable {phase : Phase} {fault : Fault} {place : Place} {v w : Value}

theorem Revises.symm (h : phase.Revises fault place v w) : phase.Revises fault place w v := by
  induction h with
  | same hfails => exact .same hfails
  | items hopens hopens' hitems hitems' hv hw _ ih =>
    exact .items hopens' hopens hitems' hitems hw hv ih
  | property hopens hopens' hrequired hrequired' hfind hfind' hbefore _ ih =>
    exact .property hopens' hopens hrequired' hrequired hfind' hfind hbefore ih

end Phase

/-! ## Revised schemas fail alike -/

/-- What is revised after a fault of its reading cannot be read either. -/
theorem Schema.read_of_revises {s : Settings} {fault : Fault} {place : Place} {v w : Value}
    (h : (Phase.reading s).Revises fault place v w) : read s place v = .error fault := by
  -- Induction on the way down to the fault; of the two values, only the first is looked at.
  induction h with
  | same hfails => exact hfails
  | items hopens _ hitems _ hv _ _ ih =>
    obtain ⟨href, htype, info, hinfo, _⟩ := hopens
    have hinfo : (Facets.ofEntries _).info s _ = .ok info := hinfo
    rw [read_of_items href htype hitems hv, hinfo, ok_bind, ih, map_error]
  | @property place entries others before after after' required key v w hopens _ hrequired _ hfind _
      hbefore _ ih =>
    obtain ⟨href, htype, info, hinfo, _⟩ := hopens
    have hinfo : (Facets.ofEntries entries).info s place = .ok info := hinfo
    have hproperties := readProperties_eq_error.mpr ⟨before, (key, v), after, rfl, hbefore, ih⟩
    rw [read_of_properties href htype hfind, hinfo, ok_bind, hrequired, hproperties, map_error]

namespace Context

variable {c : Context} {fault : Fault} {place : Place} {v w : Value}

/-- An object fails with its first property that fails, if those before it pass. -/
theorem expr_of_property {entries before after : List (String × Value)} {required : List Value}
    {key : String} {schema : Schema} (hopens : (Phase.compiling c).Opens .object place entries)
    (hrequired : (Facets.ofEntries entries).requiredNames = required)
    (hfind : (Facets.ofEntries entries).find? "properties" =
      some (.object (before ++ (key, v) :: after)))
    (hbefore : ∀ e ∈ before, (Phase.compiling c).Passes (place.property required e.1) e.2)
    (hfails : ∀ p, Schema.read c.settings (place.property required key) v = .ok p →
      c.expr p = .error fault)
    (hread : Schema.read c.settings place (.object entries) = .ok schema) :
    c.expr schema = .error fault := by
  obtain ⟨href, htype, info, hinfo, hnull⟩ := hopens
  have hinfo : (Facets.ofEntries entries).info c.settings place = .ok info := hinfo
  rw [Schema.read_of_properties href htype hfind, hinfo, ok_bind, hrequired,
    Schema.readProperties_eq_mapM] at hread
  obtain ⟨properties, hproperties, rfl⟩ := map_eq_ok.mp hread
  obtain ⟨first, p, rest, rfl, hfirst, hp, _⟩ := mapM_append_cons_eq_ok.mp hproperties
  -- A property has a text as its name, so it is enough for those before that they have expressions.
  have hpasses : ∀ q ∈ first, ∃ fields, c.fields q = .ok fields := by
    intro q hq
    obtain ⟨e, he, hreadq⟩ := exists_of_mem_right (mapM_eq_ok.mp hfirst) hq
    obtain ⟨read, hreadp, written, hwritten⟩ := hbefore e he
    have hsame : read = q := Except.ok.inj (hreadp.symm.trans hreadq)
    have hname : q.info.name = .text e.1 := Schema.name_of_read hreadq nofun
    exact Schema.exists_fields c.expand hname (hsame ▸ hwritten)
  have hfault : Schema.fieldsOfAll c.expand (first ++ p :: rest) = .error fault :=
    (Schema.fieldsOfAll_eq_error c.expand).mpr
      ⟨first, p, rest, rfl, hpasses, Schema.fields_eq_error c.expand (hfails p hp)⟩
  have hsome : first ++ p :: rest ≠ [] := List.append_ne_nil_of_right_ne_nil first nofun
  rw [expr, Schema.expr_object_of_null c.expand hnull hsome, hfault, map_error]

/-- What is revised after a fault of its compilation, and can still be read, fails alike. -/
theorem expr_of_revises {schema : Schema} (h : (Phase.compiling c).Revises fault place v w)
    (hread : Schema.read c.settings place v = .ok schema) : c.expr schema = .error fault := by
  -- The same induction, over what is read at each place on the way down.
  induction h generalizing schema with
  | same hfails =>
    obtain ⟨read, hv, hfault⟩ := hfails
    have hsame : read = schema := Except.ok.inj (hv.symm.trans hread)
    exact hsame ▸ hfault
  | @items place entries others v w hopens _ hitems _ hv _ _ ih =>
    obtain ⟨href, htype, info, hinfo, hnull⟩ := hopens
    have hinfo : (Facets.ofEntries entries).info c.settings place = .ok info := hinfo
    rw [Schema.read_of_items href htype hitems hv, hinfo, ok_bind] at hread
    obtain ⟨items, hitemsRead, rfl⟩ := map_eq_ok.mp hread
    have hfault : items.expr c.expand = .error fault := ih hitemsRead
    rw [expr, Schema.expr_array_of_null c.expand hnull, hfault, map_error]
  | property hopens _ hrequired _ hfind _ hbefore _ ih =>
    exact expr_of_property hopens hrequired hfind hbefore (fun p hp => ih hp) hread

end Context

end RouteRules
