import RouteRules.Proofs.Outcome
import RouteRules.Proofs.Schema.Induction

/-!
# Texts of schemas

The text of schemas that stand one after the other is the text of one after that of the other.

## Main definitions

- `Context.text`: the text of a schema in the enclosing object.
- `Context.keyedText`: the text of a schema as one field under its own key.

## Main statements

- `Context.text_eq_keyedText`: the two agree, but for references.
- `Context.join_keyedText`: the text of many fields is that of each, joined.
-/

namespace RouteRules

theorem FieldName.key_text (s : String) : key (.text s) = .ok (quote s) := by
  unfold key ofValue
  split
  · rename_i hblank
    have hs : s = "" := by simpa [Value.isBlank, Scalar.isBlank] using hblank
    rw [hs]
    rfl
  · rfl

theorem Rule.chainText_append (rules others : List Rule) :
    chainText (rules ++ others) = chainText rules ++ chainText others := by
  rw [chainText, List.map_append, String.join_append]
  rfl

@[simp] theorem renderFields_nil (validator : String) : renderFields validator [] = "" := rfl

theorem renderFields_cons (validator key : String) (value : Expr) (rest : List Field) :
    renderFields validator ((key, value) :: rest) =
      fieldText key (value.render validator) ++ renderFields validator rest := rfl

theorem renderFields_append (validator : String) (fields others : List Field) :
    renderFields validator (fields ++ others) =
      renderFields validator fields ++ renderFields validator others := by
  induction fields with
  | nil => rw [List.nil_append, renderFields_nil, String.empty_append]
  | cons field rest ih =>
    obtain ⟨key, value⟩ := field
    rw [List.cons_append, renderFields_cons, renderFields_cons, ih, String.append_assoc]

theorem renderFields_singleton (validator key : String) (value : Expr) :
    renderFields validator [(key, value)] = fieldText key (value.render validator) := by
  rw [renderFields_cons, renderFields_nil, String.append_empty]

theorem Schema.fieldsOfAll_append (expand : Expansion) (schemas others : List Schema) :
    fieldsOfAll expand (schemas ++ others) = do
      let fields ← fieldsOfAll expand schemas
      return fields ++ (← fieldsOfAll expand others) := by
  simp only [fieldsOfAll_eq_mapM, List.mapM_append]
  cases schemas.mapM (fields expand) with
  | error fault => rfl
  | ok own => cases others.mapM (fields expand) <;> simp

namespace Context

variable (c : Context)

/-- The text of a schema in the enclosing object: its fields, each with its separator. -/
def text (schema : Schema) : Except Fault String := renderFields c.validator <$> c.fields schema

/-- The text of a schema as one field: the name as the key, and the expression as the value. -/
def keyedText (schema : Schema) : Except Fault String := do
  let e ← c.expr schema
  let key ← FieldName.key schema.info.name
  return fieldText key (e.render c.validator)

/-- A schema that is no reference has one field, under its own key. -/
theorem text_eq_keyedText {schema : Schema} (h : schema.isReference = false) :
    c.text schema = c.keyedText schema := by
  simp only [text, keyedText, fields, expr, Schema.fields_of_not_reference _ h, Info.fields]
  cases schema.expr c.expand with
  | error fault => rfl
  | ok e =>
    cases FieldName.key schema.info.name with
    | error fault => rfl
    | ok key => exact congrArg Except.ok (renderFields_singleton _ _ _)

/-- The text of many fields is that of each, joined. -/
theorem join_keyedText {schemas : List Schema} {fields : List Field}
    (href : ∀ schema ∈ schemas, schema.isReference = false)
    (h : Schema.fieldsOfAll c.expand schemas = .ok fields) :
    ∃ texts, schemas.mapM c.keyedText = .ok texts ∧
      renderFields c.validator fields = String.join texts := by
  induction schemas generalizing fields with
  | nil =>
    cases h
    exact ⟨[], rfl, rfl⟩
  | cons schema rest ih =>
    rw [Schema.fieldsOfAll_cons] at h
    obtain ⟨own, hown, h⟩ := bind_eq_ok.mp h
    obtain ⟨others, hothers, h⟩ := bind_eq_ok.mp h
    cases h
    obtain ⟨texts, htexts, hrender⟩ :=
      ih (fun other hother => href other (List.mem_cons_of_mem _ hother)) hothers
    -- A schema that is no reference has one field, under its own key.
    have htext : c.keyedText schema = .ok (renderFields c.validator own) := by
      rw [← c.text_eq_keyedText (href schema (List.mem_cons_self ..)), text, Context.fields, hown]
      rfl
    refine ⟨renderFields c.validator own :: texts, ?_, ?_⟩
    · rw [List.mapM_cons, htext, htexts]
      rfl
    · rw [renderFields_append, hrender, String.join_cons]

end Context

end RouteRules
