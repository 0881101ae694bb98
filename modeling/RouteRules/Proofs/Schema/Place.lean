import RouteRules.Proofs.Schema.Induction
import RouteRules.Proofs.Schema.Reading

/-!
# Schemas and the places where they stand

The place of a schema shows in its path, and no expression shows a path. So schemas that are read at
two places compile in the same way.

## Main statements

- `Schema.expr_unplaced`, `Schema.fields_unplaced`: no expression shows a path.
- `Schema.unplaced_read`: schemas read at two places differ in their paths only.
-/

namespace RouteRules

/-! ## Schemas without their paths -/

def Info.unplaced (info : Info) : Info := { info with path := .null }

namespace Schema

mutual

/-- The schema with no path in any part of it. -/
def unplaced : Schema → Schema
  | string info formats pattern members => string info.unplaced formats pattern members
  | number info whole minimum maximum => number info.unplaced whole minimum maximum
  | array info items => array info.unplaced items.unplaced
  | bareArray info => bareArray info.unplaced
  | object info properties => object info.unplaced (unplacedAll properties)
  | bareObject info => bareObject info.unplaced
  | reference info target => reference info.unplaced target
  | unsupported info kind => unsupported info.unplaced kind

/-- The schemas with no path in any part of them. -/
def unplacedAll : List Schema → List Schema
  | [] => []
  | schema :: rest => schema.unplaced :: unplacedAll rest

end

@[simp] theorem info_unplaced (schema : Schema) : schema.unplaced.info = schema.info.unplaced := by
  cases schema <;> rfl

@[simp] theorem isReference_unplaced (schema : Schema) :
    schema.unplaced.isReference = schema.isReference := by
  cases schema <;> rfl

end Schema

/-! ## Expressions do not show paths -/

@[simp] theorem Info.expr_unplaced (info : Info) (definition : Except Fault (List Rule → Expr)) :
    info.unplaced.expr definition = info.expr definition := rfl

@[simp] theorem Info.fields_unplaced (info : Info) (value : Except Fault Expr) :
    info.unplaced.fields value = info.fields value := rfl

namespace Schema

variable (expand : Expansion)

theorem fields_unplaced_of_expr {schema : Schema}
    (h : schema.unplaced.expr expand = schema.expr expand) :
    schema.unplaced.fields expand = schema.fields expand := by
  cases href : schema.isReference with
  | true =>
    cases schema with
    | reference info target => rfl
    | _ => cases href
  | false =>
    rw [fields_of_not_reference expand href, fields_of_not_reference expand (by simpa using href),
      info_unplaced, Info.fields_unplaced, h]

theorem fieldsOfAll_unplaced_of_expr {schemas : List Schema}
    (h : ∀ schema ∈ schemas, schema.unplaced.expr expand = schema.expr expand) :
    fieldsOfAll expand (unplacedAll schemas) = fieldsOfAll expand schemas := by
  induction schemas with
  | nil => rfl
  | cons schema rest ih =>
    rw [unplacedAll, fieldsOfAll_cons, fieldsOfAll_cons,
      fields_unplaced_of_expr expand (h schema (List.mem_cons_self ..)),
      ih fun other hother => h other (List.mem_cons_of_mem _ hother)]

/-- No expression shows a path. -/
@[simp] theorem expr_unplaced (schema : Schema) :
    schema.unplaced.expr expand = schema.expr expand := by
  induction schema with
  | array info items ih => simp only [unplaced, expr, Info.expr_unplaced, ih]
  -- The properties lose their paths too, so each of them has the hypothesis.
  | object info properties ih =>
    cases properties with
    | nil => rfl
    | cons first rest =>
      have hall := fieldsOfAll_unplaced_of_expr expand ih
      simp only [unplacedAll] at hall
      simp only [unplaced, unplacedAll, expr, Info.expr_unplaced, hall]
  | _ => rfl

@[simp] theorem fields_unplaced (schema : Schema) :
    schema.unplaced.fields expand = schema.fields expand :=
  fields_unplaced_of_expr expand (expr_unplaced expand schema)

@[simp] theorem fieldsOfAll_unplaced (schemas : List Schema) :
    fieldsOfAll expand (unplacedAll schemas) = fieldsOfAll expand schemas :=
  fieldsOfAll_unplaced_of_expr expand fun schema _ => expr_unplaced expand schema

end Schema

/-! ## Reading at two places -/

namespace Schema

variable {s : Settings}

theorem unplaced_info (f : Facets) {place other : Place} (hname : place.name = other.name)
    (hlisted : place.listed = other.listed) :
    Info.unplaced <$> f.info s place = Info.unplaced <$> f.info s other := by
  unfold Facets.info
  rw [hname, hlisted]
  cases f.named s.appendKey with
  | error fault => rfl
  | ok append => cases f.named s.replaceKey <;> rfl

theorem unplaced_readProperties {properties : List (String × Value)} {place other : Place}
    {required : List Value}
    (h : ∀ key v, (key, v) ∈ properties →
      unplaced <$> read s (place.property required key) v =
        unplaced <$> read s (other.property required key) v) :
    unplacedAll <$> readProperties s place required properties =
      unplacedAll <$> readProperties s other required properties := by
  induction properties with
  | nil => rw [readProperties_nil, readProperties_nil]
  | cons entry rest ih =>
    obtain ⟨key, v⟩ := entry
    have hfirst := h key v (List.mem_cons_self ..)
    have hrest := ih fun key v hv => h key v (List.mem_cons_of_mem _ hv)
    rw [readProperties_cons, readProperties_cons]
    apply map_bind_congr hfirst
    intro property other hproperty
    apply map_map_congr hrest
    intro properties others hproperties
    simp only [unplacedAll, hproperty, hproperties]

/-- Schemas that are read under the same name at two places differ in their paths only, and the
same faults are met. -/
theorem unplaced_read (place other : Place) (hname : place.name = other.name)
    (hlisted : place.listed = other.listed) (v : Value) :
    unplaced <$> read s place v = unplaced <$> read s other v := by
  induction v using reading_induction generalizing place other with
  | other v h => rw [read_of_not_object s place h, read_of_not_object s other h]
  | object entries items properties =>
    -- The two common parts differ in their paths only, and the rest is read from the same facets.
    rw [read_object, read_object]
    apply map_bind_congr (unplaced_info _ hname hlisted)
    intro info info' hinfo
    unfold readKind
    split
    -- A reference.
    · simp only [map_ok, unplaced, hinfo]
    · unfold readTyped
      split
      -- A text.
      · exact map_map_congr (v := id) rfl fun ms ms' hms => by
          simp only [id_eq] at hms
          simp only [unplaced, hinfo, hms]
      -- A number.
      · simp only [map_ok, unplaced, hinfo]
      -- An array: the items stand at a place that depends on that of the array.
      · unfold readArray
        split
        · simp only [map_ok, unplaced, hinfo]
        · simp only [map_ok, unplaced, hinfo]
        · rename_i found
          exact map_map_congr (items _ found _ _ rfl rfl) fun a b hab => by
            simp only [unplaced, hinfo, hab]
      -- An object: so do the properties, and their names and marks do not depend on it.
      · unfold readObject
        split
        · simp only [map_ok, unplaced, hinfo]
        · simp only [map_ok, unplaced, hinfo]
        · rename_i found
          refine map_map_congr (unplaced_readProperties fun key w hw => ?_) fun a b hab => ?_
          · exact properties _ found key w hw _ _ rfl rfl
          · simp only [unplaced, hinfo, hab]
        · rfl
      -- A schema of another type.
      · simp only [map_ok, unplaced, hinfo]

end Schema

end RouteRules
