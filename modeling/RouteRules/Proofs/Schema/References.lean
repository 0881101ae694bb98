import RouteRules.Proofs.Schema.Induction

/-!
# References in schemas

The references that compiling a schema can come to. Under a replacement nothing is looked at, so
what stands there does not count.
-/

namespace RouteRules

namespace Schema

mutual

/-- The references in a schema, but for those under a replacement. -/
def references : Schema → List Reference
  | .reference _ target => [target]
  | .array info items => if info.replacement = .null then items.references else []
  | .object info properties =>
    if info.replacement = .null then referencesOfAll properties else []
  | _ => []

/-- The references in schemas, but for those under a replacement. -/
def referencesOfAll : List Schema → List Reference
  | [] => []
  | schema :: rest => schema.references ++ referencesOfAll rest

end

theorem references_of_replaced {schema : Schema} (href : schema.isReference = false)
    (h : schema.info.replacement ≠ .null) : schema.references = [] := by
  cases schema with
  | reference info target => cases href
  | array info items => exact if_neg h
  | object info properties => exact if_neg h
  | _ => rfl

theorem referencesOfAll_eq_nil {schemas : List Schema}
    (h : ∀ schema ∈ schemas, schema.references = []) : referencesOfAll schemas = [] := by
  induction schemas with
  | nil => rfl
  | cons schema rest ih =>
    rw [referencesOfAll, h schema (List.mem_cons_self ..),
      ih fun other hother => h other (List.mem_cons_of_mem _ hother)]
    rfl

end Schema

/-- The references in a component. Its own replacement does not count. -/
def Content.references : Content → List Reference
  | .alias target => [target]
  | .properties first rest => Schema.referencesOfAll (first :: rest)

end RouteRules
