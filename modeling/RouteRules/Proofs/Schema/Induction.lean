import RouteRules.Compilation
import RouteRules.Proofs.Outcome

/-!
# Induction over schemas

Induction over a schema with its properties, and the equations by which schemas are compiled under
any expansion of references.

## Main statements

- `Schema.induction`: induction in which every property of an object has the hypothesis.
- `Schema.fields_of_not_reference`, `Schema.expr_reference`: the two ways of compiling a schema.
- `Schema.fieldsOfAll_eq_mapM`: schemas are compiled one after the other.
- `Info.expr_of_null`, `Info.expr_of_text`, `Info.expr_of_other`: the three kinds of replacement.
- `Schema.expr_array_of_null`, `Schema.expr_object_of_null`: what is inside, without a replacement.
- `Schema.memberFields_object`, `Schema.memberFields_eq_fields`: schemas that are groups of their
  own.
-/

namespace RouteRules

namespace Schema

/-- Whether the schema is a reference. -/
def isReference : Schema → Bool
  | reference _ _ => true
  | _ => false

/-- Induction over a schema. The properties of an object are taken one by one. -/
@[induction_eliminator]
theorem induction {motive : Schema → Prop}
    (string : ∀ info formats pattern members, motive (.string info formats pattern members))
    (number : ∀ info whole minimum maximum, motive (.number info whole minimum maximum))
    (array : ∀ info items, motive items → motive (.array info items))
    (bareArray : ∀ info, motive (.bareArray info))
    (object : ∀ info properties, (∀ p ∈ properties, motive p) → motive (.object info properties))
    (bareObject : ∀ info, motive (.bareObject info))
    (reference : ∀ info target, motive (.reference info target))
    (unsupported : ∀ info kind, motive (.unsupported info kind)) (schema : Schema) :
    motive schema := by
  -- The second motive, over lists of properties, says that each of them has the first.
  refine @Schema.rec motive (fun properties => ∀ p ∈ properties, motive p)
    string number array bareArray object bareObject reference unsupported ?nil ?cons schema
  case nil =>
    intro p hp
    cases hp
  case cons =>
    intro first rest hfirst hrest p hp
    rcases List.mem_cons.mp hp with rfl | hp
    · exact hfirst
    · exact hrest p hp

/-! ## Equations -/

@[simp] theorem fields_reference (expand : Expansion) (info : Info) (target : Reference) :
    (Schema.reference info target).fields expand = expand target := rfl

theorem fields_of_not_reference (expand : Expansion) {schema : Schema}
    (h : schema.isReference = false) :
    schema.fields expand = schema.info.fields (schema.expr expand) := by
  cases schema with
  | reference info target => cases h
  | _ => rfl

@[simp] theorem expr_reference (expand : Expansion) (info : Info) (target : Reference) :
    (Schema.reference info target).expr expand = (Expr.object · []) <$> expand target := by
  simp only [Schema.expr]
  cases expand target <;> rfl

/-- The fields of schemas are those of each, one after the other. -/
theorem fieldsOfAll_eq_mapM (expand : Expansion) (schemas : List Schema) :
    fieldsOfAll expand schemas = List.flatten <$> schemas.mapM (fields expand) := by
  induction schemas with
  | nil => rfl
  | cons schema rest ih =>
    rw [fieldsOfAll_cons, List.mapM_cons, ih]
    cases schema.fields expand with
    | error fault => rfl
    | ok own => cases rest.mapM (fields expand) <;> rfl

theorem expr_object (expand : Expansion) (info : Info) {properties : List Schema}
    (h : properties ≠ []) :
    (Schema.object info properties).expr expand =
      info.expr (.object <$> fieldsOfAll expand properties) := by
  cases properties with
  | nil => exact absurd rfl h
  | cons first rest => rfl

end Schema

/-! ## Replacements -/

namespace Info

variable {info : Info} {definition : Except Fault (List Rule → Expr)}

theorem expr_of_null (h : info.replacement = .null) :
    info.expr definition = (· (info.modifiers true)) <$> definition := by
  simp only [Info.expr, h]
  cases definition <;> rfl

theorem expr_of_text {code : String} (h : info.replacement = .text code) :
    info.expr definition = .ok (.verbatim code (info.modifiers false)) := by
  simp only [Info.expr, h]

theorem expr_of_other (hnull : info.replacement ≠ .null)
    (htext : ∀ code, info.replacement ≠ .text code) :
    info.expr definition = .error .textExpected := by
  simp only [Info.expr]

/-- An expression comes from the definition or from a replacement. -/
theorem expr_cases {e : Expr} (h : info.expr definition = .ok e) :
    (info.replacement = .null ∧ ∃ d, definition = .ok d) ∨
      ∃ code, info.replacement = .text code := by
  by_cases hnull : info.replacement = .null
  · rw [expr_of_null hnull] at h
    obtain ⟨d, hd, _⟩ := map_eq_ok.mp h
    exact .inl ⟨hnull, d, hd⟩
  · by_cases htext : ∃ code, info.replacement = .text code
    · exact .inr htext
    · rw [expr_of_other hnull fun code hcode => htext ⟨code, hcode⟩] at h
      cases h

/-- Under a replacement the definition does not count. -/
theorem expr_replaced (h : info.replacement ≠ .null) (other : Except Fault (List Rule → Expr)) :
    info.expr definition = info.expr other := by
  -- A text is taken as it is, and anything else is an error, whatever the definition.
  by_cases htext : ∃ code, info.replacement = .text code
  · obtain ⟨code, hcode⟩ := htext
    rw [expr_of_text hcode, expr_of_text hcode]
  · have hother : ∀ code, info.replacement ≠ .text code := fun code hcode => htext ⟨code, hcode⟩
    rw [expr_of_other h hother, expr_of_other h hother]

end Info

/-! ## Schemas without a replacement -/

namespace Schema

variable (expand : Expansion)

theorem expr_array_of_null {info : Info} (hnull : info.replacement = .null) (items : Schema) :
    (array info items).expr expand =
      (Expr.array · (info.modifiers true)) <$> items.expr expand := by
  rw [expr, Info.expr_of_null hnull, Functor.map_map]

theorem expr_object_of_null {info : Info} {properties : List Schema}
    (hnull : info.replacement = .null) (h : properties ≠ []) :
    (object info properties).expr expand =
      (Expr.object · (info.modifiers true)) <$> fieldsOfAll expand properties := by
  rw [expr_object expand info h, Info.expr_of_null hnull, Functor.map_map]

/-! ## Groups of their own -/

/-- The properties of an object are the fields of the group. -/
theorem memberFields_object {info : Info} {properties : List Schema}
    (hnull : info.replacement = .null) (h : properties ≠ []) :
    (object info properties).memberFields expand = fieldsOfAll expand properties := by
  cases properties with
  | nil => exact absurd rfl h
  | cons first rest => simp [memberFields, hnull, Value.isNull]

/-- Without properties, and under a replacement, a group has the fields of its schema. -/
theorem memberFields_eq_fields {schema : Schema}
    (h : ∀ info first rest, schema = .object info (first :: rest) → info.replacement ≠ .null) :
    schema.memberFields expand = schema.fields expand := by
  cases schema with
  | object info properties =>
    cases properties with
    | nil =>
      -- An object without properties fails in both ways, with the same error.
      by_cases hnull : info.replacement = .null
      · have hfault : (object info []).fields expand = .error (.noProperties info.name) :=
          congrArg info.fields (Info.expr_of_null hnull)
        simp [memberFields, Value.isNull_iff, hnull, hfault]
      · simp [memberFields, Value.isNull_iff, hnull]
    | cons first rest => simp [memberFields, Value.isNull_iff, h info first rest rfl]
  -- So does one that states none.
  | bareObject info =>
    by_cases hnull : info.replacement = .null
    · have hfault : (bareObject info).fields expand = .error (.noProperties info.name) :=
        congrArg info.fields (Info.expr_of_null hnull)
      simp [memberFields, Value.isNull_iff, hnull, hfault]
    · simp [memberFields, Value.isNull_iff, hnull]
  | _ => rfl

end Schema

end RouteRules
