import RouteRules.Proofs.Aliases
import RouteRules.Proofs.Route.Cutting
import RouteRules.Proofs.Walk.Blame

/-!
# Texts that stand in a text

What a schema is written as stands, character for character, in the text of whatever the schema is a
part of: an array, an object, a component that is referred to, a group of a route. Each level adds
something in front and behind, and takes away nothing but the separator that it has added itself.

## Main definitions

- `Context.StandsIn`: a schema is written as a part of a text.

## Main statements

- `Context.Visitable.standsIn`: with a schema, everything that it leads to stands in a text.
- `Context.infix_text`, `Context.infix_exprText`, `Context.infix_group`: the text of a schema, of an
  expression and of a group.
-/

namespace RouteRules

variable {validator : String}

/-! ## Parts of objects -/

/-- What an object is made of stands in its text. -/
theorem infix_objectText {pieces : List String} {piece : String} (h : piece ∈ pieces) :
    piece.toList <:+: (objectText validator pieces).toList := by
  rw [objectText, String.toList_append, String.toList_append]
  exact (infix_join h).trans (List.infix_append ..)

/-- A field stands in the text of an object that has it, whatever modifiers follow. -/
theorem infix_render_object {fields : List Field} {field : Field} (h : field ∈ fields)
    (modifiers : List Rule) :
    (pieceText validator field).toList <:+:
      ((Expr.object fields modifiers).render validator).toList := by
  rw [Expr.render, wrapFields_renderFields, String.toList_append]
  apply List.infix_append_of_infix_left
  exact infix_objectText (List.mem_map_of_mem h)

/-- The items of an array stand in its text. -/
theorem infix_render_array (items : Expr) (modifiers : List Rule) :
    (items.render validator).toList <:+:
      ((Expr.array items modifiers).render validator).toList := by
  rw [Expr.render, wrapItems, String.toList_append, String.toList_append, String.toList_append]
  exact List.infix_append_of_infix_left (List.infix_append ..)

/-- A field stands in the text of fields, each of them with its separator. -/
theorem infix_renderFields {fields : List Field} {field : Field} (h : field ∈ fields) :
    (pieceText validator field).toList <:+: (renderFields validator fields).toList := by
  rw [renderFields_eq_join validator (List.ne_nil_of_mem h), String.toList_append]
  apply List.infix_append_of_infix_left
  exact infix_join (List.mem_map_of_mem h)

/-- The value of a field stands behind its key. -/
theorem infix_pieceText (key : String) (value : Expr) :
    (value.render validator).toList <:+: (pieceText validator (key, value)).toList := by
  rw [pieceText, String.toList_append]
  exact List.infix_append_right

/-- Each of the schemas that give fields has its own among them. -/
theorem Schema.exists_fields_subset {expand : Expansion} {schemas : List Schema}
    {fields : List Field} {schema : Schema} (h : fieldsOfAll expand schemas = .ok fields)
    (hmem : schema ∈ schemas) : ∃ own, schema.fields expand = .ok own ∧ own ⊆ fields := by
  rw [fieldsOfAll_eq_mapM] at h
  obtain ⟨parts, hparts, rfl⟩ := map_eq_ok.mp h
  obtain ⟨own, hown, hfields⟩ := exists_of_mem_right (mapM_eq_ok.mp hparts).flip hmem
  exact ⟨own, hfields, fun field hfield => List.mem_flatten.mpr ⟨own, hown, hfield⟩⟩

/-! ## Parts of schemas -/

namespace Context

variable {c : Context} {root schema : Schema} {t : String}

/-- The schema is written as a part of the text. A reference is not written itself; the fields that
it stands for are. -/
inductive StandsIn (c : Context) (t : String) : Schema → Prop where
  | reference {info : Info} {r : Reference} {fields : List Field} :
      c.expand r = .ok fields →
      (∀ field ∈ fields, (pieceText c.validator field).toList <:+: t.toList) →
      StandsIn c t (.reference info r)
  | other {schema : Schema} {e : Expr} :
      schema.isReference = false → c.expr schema = .ok e →
      (e.render c.validator).toList <:+: t.toList → StandsIn c t schema

/-- A schema whose fields stand in the text stands there itself. -/
theorem standsIn_of_fields {fields : List Field} (h : c.fields schema = .ok fields)
    (hfields : ∀ field ∈ fields, (pieceText c.validator field).toList <:+: t.toList) :
    c.StandsIn t schema := by
  cases href : schema.isReference with
  | true =>
    cases schema with
    | reference info r => exact .reference h hfields
    | _ => cases href
  | false =>
    -- Its only field is its expression under a key.
    rw [Context.fields, Schema.fields_of_not_reference _ href] at h
    obtain ⟨e, he, h⟩ := bind_eq_ok.mp h
    obtain ⟨key, _, h⟩ := bind_eq_ok.mp h
    cases h
    have hpiece := hfields (key, e) (List.mem_singleton_self _)
    exact .other href he ((infix_pieceText key e).trans hpiece)

/-- So does a schema whose expression stands there. -/
theorem standsIn_of_expr {e : Expr} (h : c.expr schema = .ok e)
    (hrender : (e.render c.validator).toList <:+: t.toList) : c.StandsIn t schema := by
  cases href : schema.isReference with
  | true =>
    cases schema with
    | reference info r =>
      -- In the place of a value a reference is an object around its fields.
      rw [expr, Schema.expr_reference] at h
      obtain ⟨fields, hfields, rfl⟩ := map_eq_ok.mp h
      exact .reference hfields fun field hfield => (infix_render_object hfield []).trans hrender
    | _ => cases href
  | false => exact .other href h hrender

/-- Each of the schemas that give the fields in a text stands there. -/
theorem standsIn_of_mem {schemas : List Schema} {fields : List Field}
    (h : Schema.fieldsOfAll c.expand schemas = .ok fields)
    (hfields : ∀ field ∈ fields, (pieceText c.validator field).toList <:+: t.toList)
    (hmem : schema ∈ schemas) : c.StandsIn t schema := by
  obtain ⟨own, hown, hsubset⟩ := Schema.exists_fields_subset h hmem
  exact standsIn_of_fields hown fun field hfield => hfields field (hsubset hfield)

/-- With a schema, everything that it leads to stands in a text. -/
theorem Visitable.standsIn (h : c.Visitable root schema) (hroot : c.StandsIn t root) :
    c.StandsIn t schema := by
  -- What leads to a schema stands in the text first; for what is inside it is an array, an object
  -- or a reference, so only one of the two cases is left each time.
  induction h with
  | root => exact hroot
  | items _ hnull ih =>
    cases ih with
    | other _ he hrender =>
      obtain ⟨i, hi, rfl⟩ := Schema.expr_array_cases hnull he
      exact standsIn_of_expr hi ((infix_render_array i _).trans hrender)
  | property _ hnull hp ih =>
    cases ih with
    | other _ he hrender =>
      obtain ⟨_, fields, hfields, rfl⟩ := Schema.expr_object_cases hnull he
      exact standsIn_of_mem hfields
        (fun field hfield => (infix_render_object hfield _).trans hrender) hp
  | renamed _ hnames ih =>
    cases ih with
    | reference hexpand hfields =>
      -- Both names stand for the same fields.
      rw [expand_eq, content_eq_alias.mpr ⟨_, hnames⟩, ok_bind] at hexpand
      exact .reference hexpand hfields
    | other href => cases href
  | component _ hnames hp ih =>
    cases ih with
    | reference hexpand hfields =>
      obtain ⟨first, rest, rfl⟩ := List.exists_cons_of_ne_nil (List.ne_nil_of_mem hp)
      rw [expand_eq, content_eq_properties.mpr ⟨_, hnames⟩, ok_bind] at hexpand
      exact standsIn_of_mem hexpand hfields hp
    | other href => cases href

/-- What stands in a text, and is no reference, is written there as it is by itself. -/
theorem StandsIn.exists_exprText (h : c.StandsIn t schema) (href : schema.isReference = false) :
    ∃ s, c.exprText schema = .ok s ∧ s.toList <:+: t.toList := by
  cases h with
  | reference _ _ => cases href
  | other _ he hrender => exact ⟨_, congrArg (_ <$> ·) he, hrender⟩

/-! ## Texts of schemas and groups -/

/-- What a schema leads to stands in its text as a field. -/
theorem infix_text (h : c.Visitable root schema) (href : schema.isReference = false)
    (ht : c.text root = .ok t) : ∃ s, c.exprText schema = .ok s ∧ s.toList <:+: t.toList := by
  obtain ⟨fields, hfields, rfl⟩ := map_eq_ok.mp ht
  exact (h.standsIn (standsIn_of_fields hfields fun _ => infix_renderFields)).exists_exprText href

/-- It stands in its text as a value. -/
theorem infix_exprText (h : c.Visitable root schema) (href : schema.isReference = false)
    (ht : c.exprText root = .ok t) : ∃ s, c.exprText schema = .ok s ∧ s.toList <:+: t.toList := by
  obtain ⟨e, he, rfl⟩ := map_eq_ok.mp ht
  exact (h.standsIn (standsIn_of_expr he List.infix_rfl)).exists_exprText href

/-- What the schemas of a group lead to stands in the text of the group. -/
theorem infix_group {operation : List (String × Value)} {route : Route} {groups : Groups}
    {group : Group} (hread : Route.read c.settings (.object operation) = .ok route)
    (hgroups : c.compileRoute (.object operation) = .ok groups) (hmem : (group, t) ∈ groups)
    (hroot : root ∈ route.declared group) (h : c.Visitable root schema)
    (href : schema.isReference = false) :
    ∃ s, c.exprText schema = .ok s ∧ s.toList <:+: t.toList := by
  rw [compileRoute_of_read hread] at hgroups
  obtain ⟨compiled, hcompiled, rfl⟩ := map_eq_ok.mp hgroups
  obtain ⟨_, fieldsOf, hfieldsOf, rfl⟩ :=
    groupFields_eq_ok (hasScalarLocations_of_groupFields hcompiled) hcompiled
  obtain ⟨_, rfl⟩ := mem_groups_iff.mp hmem
  -- The text of a group is that of an object with the fields of its schemas.
  have hdeclared := fieldsOf_declared (hfieldsOf group)
  have hfields : ∀ field ∈ fieldsOf group, (pieceText c.validator field).toList <:+:
      (c.groupText (fieldsOf group)).toList := fun _ hfield => infix_render_object hfield []
  exact (h.standsIn (standsIn_of_mem hdeclared hfields hroot)).exists_exprText href

end Context

end RouteRules
