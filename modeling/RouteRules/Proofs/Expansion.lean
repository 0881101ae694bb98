import RouteRules.Proofs.Schema.References
import RouteRules.Proofs.WellFormed

/-!
# Expansion

A schema with references says the same as schemas without any. Where a reference is to give fields,
the properties of its component stand in its place; where it is to give a value, an object with
these properties does. The result needs no catalogue.

## Main definitions

- `ExpandsField`, `ExpandsValue`: what a schema becomes, as a field and as a value.
- `Context.withoutCatalogue`: the same settings, and nothing to refer to.

## Main statements

- `ExpandsField.fields_eq`: a schema compiles as its expansion does, whatever the catalogue holds.
- `ExpandsField.unique`: a schema has one expansion.
- `Context.text_eq_expansion`: a schema that compiles has an expansion, and its text is that of the
  expansion without a catalogue.
-/

namespace RouteRules

/-! ## Expansions -/

/-- The common part of a schema that says nothing about itself. -/
def Info.plain : Info where
  name := .null
  required := .bool false
  description := .null
  append := .null
  replacement := .null
  path := .text ""

/-- The schema has no parts that are schemas. -/
def Schema.isLeaf : Schema → Bool
  | array _ _ => false
  | object _ _ => false
  | reference _ _ => false
  | _ => true

mutual

/-- What a schema becomes where it is to give fields. -/
inductive ExpandsField (c : Context) : Schema → List Schema → Prop where
  | reference {info : Info} {target : Reference} {ms : List Schema} :
      ExpandsReference c target ms → ExpandsField c (.reference info target) ms
  | other {schema m : Schema} :
      schema.isReference = false → ExpandsValue c schema m → ExpandsField c schema [m]

/-- What schemas become, one after the other. -/
inductive ExpandsAll (c : Context) : List Schema → List Schema → Prop where
  | nil : ExpandsAll c [] []
  | cons {schema : Schema} {rest ms ns : List Schema} :
      ExpandsField c schema ms → ExpandsAll c rest ns → ExpandsAll c (schema :: rest) (ms ++ ns)

/-- The properties of the object that a reference leads to, expanded. -/
inductive ExpandsReference (c : Context) : Reference → List Schema → Prop where
  | alias {r target : Reference} {ms : List Schema} :
      c.content r = .ok (.alias target) → ExpandsReference c target ms → ExpandsReference c r ms
  | properties {r : Reference} {first : Schema} {rest ms : List Schema} :
      c.content r = .ok (.properties first rest) → ExpandsAll c (first :: rest) ms →
      ExpandsReference c r ms

/-- What a schema becomes where it is to give a value. -/
inductive ExpandsValue (c : Context) : Schema → Schema → Prop where
  | reference {info : Info} {target : Reference} {ms : List Schema} :
      ExpandsReference c target ms → ExpandsValue c (.reference info target) (.object .plain ms)
  /-- Nothing is expanded under a replacement. -/
  | replaced {schema : Schema} :
      schema.isReference = false → schema.info.replacement ≠ .null → ExpandsValue c schema schema
  | leaf {schema : Schema} : schema.isLeaf = true → ExpandsValue c schema schema
  | array {info : Info} {items m : Schema} :
      info.replacement = .null → ExpandsValue c items m →
      ExpandsValue c (.array info items) (.array info m)
  | object {info : Info} {properties ms : List Schema} :
      info.replacement = .null → ExpandsAll c properties ms →
      ExpandsValue c (.object info properties) (.object info ms)

end

/-! ## Expansions have no references -/

theorem Schema.references_of_leaf {schema : Schema} (h : schema.isLeaf = true) :
    schema.references = [] := by
  cases schema with
  | array info items => cases h
  | object info properties => cases h
  | reference info target => cases h
  | _ => rfl

mutual

theorem ExpandsField.references_eq {c : Context} : ∀ {schema : Schema} {ms : List Schema},
    ExpandsField c schema ms → ∀ m ∈ ms, m.references = []
  | _, _, .reference htarget => htarget.references_eq
  | _, _, .other _ hvalue => by
    -- A schema that is no reference stays one field.
    intro m hm
    rw [List.mem_singleton.mp hm]
    exact hvalue.references_eq

theorem ExpandsAll.references_eq {c : Context} : ∀ {schemas ms : List Schema},
    ExpandsAll c schemas ms → ∀ m ∈ ms, m.references = []
  | _, _, .nil => by
    intro m hm
    cases hm
  | _, _, .cons hfield hrest => by
    intro m hm
    rcases List.mem_append.mp hm with hm | hm
    · exact hfield.references_eq m hm
    · exact hrest.references_eq m hm

theorem ExpandsReference.references_eq {c : Context} : ∀ {r : Reference} {ms : List Schema},
    ExpandsReference c r ms → ∀ m ∈ ms, m.references = []
  | _, _, .alias _ htarget => htarget.references_eq
  | _, _, .properties _ hall => hall.references_eq

/-- No reference is left in an expansion, but for those under a replacement. -/
theorem ExpandsValue.references_eq {c : Context} : ∀ {schema m : Schema},
    ExpandsValue c schema m → m.references = []
  | _, _, .reference htarget => Schema.referencesOfAll_eq_nil htarget.references_eq
  | _, _, .replaced href hreplaced => Schema.references_of_replaced href hreplaced
  | _, _, .leaf hleaf => Schema.references_of_leaf hleaf
  | _, _, .array hnull hitems => (if_pos hnull).trans hitems.references_eq
  | _, _, .object hnull hall =>
    (if_pos hnull).trans (Schema.referencesOfAll_eq_nil hall.references_eq)

end

/-! ## Expansions are not empty -/

mutual

theorem ExpandsField.ne_nil {c : Context} : ∀ {schema : Schema} {ms : List Schema},
    ExpandsField c schema ms → ms ≠ []
  | _, _, .reference htarget => htarget.ne_nil
  | _, _, .other _ _ => List.cons_ne_nil _ _

theorem ExpandsAll.ne_nil {c : Context} : ∀ {schemas ms : List Schema},
    ExpandsAll c schemas ms → schemas ≠ [] → ms ≠ []
  | _, _, .nil, h => h
  | _, _, .cons hfield _, _ => fun h => hfield.ne_nil (List.append_eq_nil_iff.mp h).1

/-- A component has at least one property, so its expansion has one too. -/
theorem ExpandsReference.ne_nil {c : Context} : ∀ {r : Reference} {ms : List Schema},
    ExpandsReference c r ms → ms ≠ []
  | _, _, .alias _ htarget => htarget.ne_nil
  -- The first property contributes at least one field.
  | _, _, .properties _ hall => hall.ne_nil (List.cons_ne_nil _ _)

end

/-! ## There is one expansion -/

mutual

/-- A schema has one expansion as a field. -/
theorem ExpandsField.unique {c : Context} : ∀ {schema : Schema} {ms ns : List Schema},
    ExpandsField c schema ms → ExpandsField c schema ns → ms = ns
  | _, _, _, .reference htarget, h => by
    cases h with
    | reference htarget' => exact htarget.unique htarget'
    | other href _ => cases href
  | _, _, _, .other href hvalue, h => by
    cases h with
    | reference _ => cases href
    | other _ hvalue' => rw [hvalue.unique hvalue']
termination_by structural _ _ _ h => h

theorem ExpandsAll.unique {c : Context} : ∀ {schemas ms ns : List Schema},
    ExpandsAll c schemas ms → ExpandsAll c schemas ns → ms = ns
  | _, _, _, .nil, h => by
    cases h
    rfl
  | _, _, _, .cons hfield hrest, h => by
    cases h with
    | cons hfield' hrest' => rw [hfield.unique hfield', hrest.unique hrest']
termination_by structural _ _ _ h => h

theorem ExpandsReference.unique {c : Context} : ∀ {r : Reference} {ms ns : List Schema},
    ExpandsReference c r ms → ExpandsReference c r ns → ms = ns
  -- A component is one thing only, so both expansions of it go the same way.
  | _, _, _, .alias hcontent htarget, h => by
    cases h with
    | «alias» hcontent' htarget' =>
      rw [hcontent] at hcontent'
      cases hcontent'
      exact htarget.unique htarget'
    | properties hcontent' _ =>
      rw [hcontent] at hcontent'
      cases hcontent'
  | _, _, _, .properties hcontent hall, h => by
    cases h with
    | «alias» hcontent' _ =>
      rw [hcontent] at hcontent'
      cases hcontent'
    | properties hcontent' hall' =>
      rw [hcontent] at hcontent'
      cases hcontent'
      exact hall.unique hall'
termination_by structural _ _ _ h => h

/-- A schema has one expansion as a value. -/
theorem ExpandsValue.unique {c : Context} : ∀ {schema m n : Schema},
    ExpandsValue c schema m → ExpandsValue c schema n → m = n
  | _, _, _, .reference htarget, h => by
    cases h with
    | reference htarget' => rw [htarget.unique htarget']
    | replaced href _ => cases href
    | leaf hleaf => cases hleaf
  -- A leaf with a replacement expands by two rules, both times to itself.
  | _, _, _, .replaced href hreplaced, h => by
    cases h with
    | reference _ => cases href
    | replaced _ _ => rfl
    | leaf _ => rfl
    | array hnull _ => exact absurd hnull hreplaced
    | object hnull _ => exact absurd hnull hreplaced
  | _, _, _, .leaf hleaf, h => by
    cases h with
    | reference _ => cases hleaf
    | replaced _ _ => rfl
    | leaf _ => rfl
    | array _ _ => cases hleaf
    | object _ _ => cases hleaf
  | _, _, _, .array hnull hitems, h => by
    cases h with
    | replaced _ hreplaced => exact absurd hnull hreplaced
    | leaf hleaf => cases hleaf
    | array _ hitems' => rw [hitems.unique hitems']
  | _, _, _, .object hnull hall, h => by
    cases h with
    | replaced _ hreplaced => exact absurd hnull hreplaced
    | leaf hleaf => cases hleaf
    | object _ hall' => rw [hall.unique hall']
termination_by structural _ _ _ h => h

end

/-! ## A schema compiles as its expansion does -/

namespace Schema

theorem expr_of_replaced {schema : Schema} (href : schema.isReference = false)
    (h : schema.info.replacement ≠ .null) (expand other : Expansion) :
    schema.expr expand = schema.expr other := by
  cases schema with
  | reference info target => cases href
  | array info items => exact Info.expr_replaced h _
  | object info properties =>
    cases properties with
    | nil => rfl
    | cons first rest => exact Info.expr_replaced h _
  | _ => rfl

theorem expr_of_leaf {schema : Schema} (h : schema.isLeaf = true) (expand other : Expansion) :
    schema.expr expand = schema.expr other := by
  cases schema with
  | array info items => cases h
  | object info properties => cases h
  | reference info target => cases h
  | _ => rfl

/-- An object that says nothing about itself has no modifiers. -/
theorem expr_object_plain (expand : Expansion) {properties : List Schema} (h : properties ≠ []) :
    (Schema.object .plain properties).expr expand =
      (Expr.object · []) <$> fieldsOfAll expand properties := by
  rw [expr_object expand .plain h, Info.expr_of_null rfl]
  cases fieldsOfAll expand properties <;> rfl

end Schema

theorem ExpandsValue.isReference_eq {c : Context} {schema m : Schema}
    (h : ExpandsValue c schema m) : m.isReference = false := by
  cases h with
  | reference _ => rfl
  | replaced href _ => exact href
  | leaf hleaf =>
    cases schema with
    | reference info target => cases hleaf
    | _ => rfl
  | array _ _ => rfl
  | object _ _ => rfl

theorem ExpandsValue.info_eq {c : Context} {schema m : Schema} (h : ExpandsValue c schema m)
    (href : schema.isReference = false) : m.info = schema.info := by
  cases h with
  | reference _ => cases href
  | _ => rfl

mutual

/-- A schema gives the fields that its expansion gives, whatever references are to stand for
there. -/
theorem ExpandsField.fields_eq {c : Context} (expand : Expansion) :
    ∀ {schema : Schema} {ms : List Schema}, ExpandsField c schema ms →
      schema.fields c.expand = Schema.fieldsOfAll expand ms
  | _, _, .reference htarget => htarget.expand_eq expand
  | schema, _, .other (m := m) href hvalue => by
    -- On both sides there is one field, and it has the name of the schema.
    have hm : Schema.fieldsOfAll expand [m] = m.fields expand := by
      rw [Schema.fieldsOfAll_cons]
      cases m.fields expand with
      | error fault => rfl
      | ok own => exact congrArg Except.ok (List.append_nil own)
    rw [hm, Schema.fields_of_not_reference _ href,
      Schema.fields_of_not_reference _ hvalue.isReference_eq, hvalue.info_eq href,
      hvalue.expr_eq expand]

theorem ExpandsAll.fieldsOfAll_eq {c : Context} (expand : Expansion) :
    ∀ {schemas ms : List Schema}, ExpandsAll c schemas ms →
      Schema.fieldsOfAll c.expand schemas = Schema.fieldsOfAll expand ms
  | _, _, .nil => rfl
  | _, _, .cons hfield hrest => by
    -- One schema can become many, and all their fields stand where its own would.
    rw [Schema.fieldsOfAll_cons, Schema.fieldsOfAll_append, hfield.fields_eq expand,
      hrest.fieldsOfAll_eq expand]

theorem ExpandsReference.expand_eq {c : Context} (expand : Expansion) :
    ∀ {r : Reference} {ms : List Schema}, ExpandsReference c r ms →
      c.expand r = Schema.fieldsOfAll expand ms
  | _, _, .alias hcontent htarget => by
    rw [Context.expand_eq, hcontent]
    exact htarget.expand_eq expand
  | _, _, .properties hcontent hall => by
    rw [Context.expand_eq, hcontent]
    exact hall.fieldsOfAll_eq expand

theorem ExpandsValue.expr_eq {c : Context} (expand : Expansion) :
    ∀ {schema m : Schema}, ExpandsValue c schema m → schema.expr c.expand = m.expr expand
  -- The object around the fields of a reference is that of an object without modifiers.
  | _, _, .reference htarget => by
    rw [Schema.expr_reference, Schema.expr_object_plain expand htarget.ne_nil,
      htarget.expand_eq expand]
  | _, _, .replaced href hreplaced => Schema.expr_of_replaced href hreplaced _ _
  | _, _, .leaf hleaf => Schema.expr_of_leaf hleaf _ _
  | .array info _, _, .array _ hitems =>
    congrArg (fun items => info.expr (.array <$> items)) (hitems.expr_eq expand)
  -- An object without properties is at fault with or without an expansion.
  | .object info [], _, .object _ .nil => rfl
  | .object info (_ :: _), _, .object _ hall => by
    have hms := hall.ne_nil (List.cons_ne_nil _ _)
    rw [Schema.expr_object _ info hms]
    exact congrArg (fun fields => info.expr (.object <$> fields)) (hall.fieldsOfAll_eq expand)

end

/-! ## What is well-formed has an expansion -/

theorem exists_expandsAll {c : Context} {schemas : List Schema}
    (h : ∀ schema ∈ schemas, ∃ ms, ExpandsField c schema ms) : ∃ ms, ExpandsAll c schemas ms := by
  induction schemas with
  | nil => exact ⟨[], .nil⟩
  | cons schema rest ih =>
    obtain ⟨ms, hms⟩ := h schema (List.mem_cons_self ..)
    obtain ⟨ns, hns⟩ := ih fun other hother => h other (List.mem_cons_of_mem _ hother)
    exact ⟨ms ++ ns, .cons hms hns⟩

/-- The schema can be expanded in both positions, as a value and as a field. -/
def Expands (c : Context) (schema : Schema) : Prop :=
  (∃ m, ExpandsValue c schema m) ∧ ∃ ms, ExpandsField c schema ms

theorem Expands.of_value {c : Context} {schema m : Schema} (href : schema.isReference = false)
    (h : ExpandsValue c schema m) : Expands c schema :=
  ⟨⟨m, h⟩, [m], .other href h⟩

theorem Expands.of_reference {c : Context} {info : Info} {r : Reference} {ms : List Schema}
    (h : ExpandsReference c r ms) : Expands c (.reference info r) :=
  ⟨⟨_, .reference h⟩, ms, .reference h⟩

/-- A well-formed schema can be expanded. -/
theorem WellFormed.expands {c : Context} {schema : Schema} (h : WellFormed c schema) :
    Expands c schema := by
  induction h with
  | string => exact .of_value rfl (.leaf rfl)
  | number => exact .of_value rfl (.leaf rfl)
  | replaced href hcode => exact .of_value href (.replaced href (by simp [hcode]))
  -- Items are expanded as a value, properties as fields.
  | array hnull _ ih =>
    obtain ⟨⟨m, hm⟩, _⟩ := ih
    exact .of_value rfl (.array hnull hm)
  | object hnull _ _ ih =>
    obtain ⟨ms, hms⟩ := exists_expandsAll fun p hp => (ih p hp).2
    exact .of_value rfl (.object hnull hms)
  | renamed hnames _ ih =>
    -- The other reference has an expansion as a field, which can only be that of its component.
    obtain ⟨_, ms, hms⟩ := ih
    cases hms with
    | reference htarget =>
      exact .of_reference (.alias (Context.content_eq_alias.mpr ⟨_, hnames⟩) htarget)
    | other href _ => cases href
  | @component info own r properties hnames hne _ ih =>
    obtain ⟨ms, hms⟩ := exists_expandsAll fun p hp => (ih p hp).2
    cases properties with
    | nil => exact absurd rfl hne
    | cons first rest =>
      exact .of_reference (.properties (Context.content_eq_properties.mpr ⟨own, hnames⟩) hms)

/-- Schemas that give fields can be expanded. -/
theorem exists_expandsAll_of_fields {c : Context} {schemas : List Schema} {fields : List Field}
    (h : Schema.fieldsOfAll c.expand schemas = .ok fields) : ∃ ms, ExpandsAll c schemas ms := by
  apply exists_expandsAll
  intro schema hschema
  obtain ⟨own, hown⟩ := fields_of_mem h hschema
  exact (wellFormed_of_fields hown).expands.2

/-! ## Compilation without a catalogue -/

theorem ExpandsField.isReference_eq {c : Context} {schema : Schema} {ms : List Schema}
    (h : ExpandsField c schema ms) : ∀ m ∈ ms, m.isReference = false := by
  intro m hm
  have href := h.references_eq m hm
  cases m with
  | reference info target => cases href
  | _ => rfl

namespace Context

/-- The context with no component in its catalogue. -/
def withoutCatalogue (c : Context) : Context := { c with catalogue := ∅ }

/-- A schema that compiles has one expansion, which is not empty and free of references. The text of
the schema is that of the expansion, joined, and no catalogue is needed for it. -/
theorem text_eq_expansion (c : Context) (schema : Schema) (t : String)
    (h : c.text schema = .ok t) :
    ∃ ms, ExpandsField c schema ms ∧ (∀ ns, ExpandsField c schema ns → ns = ms) ∧ ms ≠ [] ∧
      (∀ m ∈ ms, m.references = []) ∧
      ∃ texts, ms.mapM c.withoutCatalogue.keyedText = .ok texts ∧ t = String.join texts := by
  obtain ⟨fields, hfields, rfl⟩ := map_eq_ok.mp h
  obtain ⟨_, ms, hms⟩ := (wellFormed_of_fields hfields).expands
  -- The expansion compiles in the same way whatever references stand for, so also to nothing.
  have hbare : Schema.fieldsOfAll c.withoutCatalogue.expand ms = .ok fields :=
    (hms.fields_eq _).symm.trans hfields
  have htexts := c.withoutCatalogue.join_keyedText hms.isReference_eq hbare
  exact ⟨ms, hms, fun ns hns => hns.unique hms, hms.ne_nil, hms.references_eq, htexts⟩

theorem text_eq_expansion_household :
    ∃ ms, ExpandsField household householdMember ms ∧
      (∀ ns, ExpandsField household householdMember ns → ns = ms) ∧ ms ≠ [] ∧
      (∀ m ∈ ms, m.references = []) ∧
      ∃ texts, ms.mapM household.withoutCatalogue.keyedText = .ok texts ∧
        "name: Joi.string(),\n    dogs: Joi.array().items(\n    Joi.object().keys(\x7b\n    "
            ++ "age: Joi.number().integer()\n  \x7d)\n),\n    " =
          String.join texts :=
  text_eq_expansion household householdMember _ (by decide +kernel)

end Context

end RouteRules
