import RouteRules.Proofs.Schema.Texts

/-!
# The text of an object

The wrapper of an object is given the text of its fields with one separator too many, and drops it.
What is left are the texts of the fields, joined by separators.

## Main definitions

- `pieceText`: the text of a field without its separator.
- `objectText`: the text of an object on the texts of its fields.

## Main statements

- `wrapFields_renderFields`: the wrapper joins the texts of the fields.
-/

namespace RouteRules

/-- The text of a field without its separator. -/
def pieceText (validator : String) (field : Field) : String :=
  field.1 ++ ": " ++ field.2.render validator

/-- The text of an object whose fields have the given texts. -/
def objectText (validator : String) (pieces : List String) : String :=
  validator ++ ".object().keys(\x7b\n    " ++ fieldSeparator.intercalate pieces ++ "\n  \x7d)"

/-- Of a text that ends in a separator, this separator is dropped and nothing else. -/
theorem dropSeparator_append (s : String) : dropSeparator (s ++ fieldSeparator) = s := by
  have hsuffix : fieldSeparator.toList.isSuffixOf (s ++ fieldSeparator).toList = true := by
    rw [String.toList_append, List.isSuffixOf_iff_suffix]
    exact List.suffix_append _ _
  rw [dropSeparator, if_pos hsuffix, String.toList_append, List.length_append,
    Nat.add_sub_cancel, List.take_left, String.ofList_toList]

/-- Fields are joined by separators, and one more stands at the end. -/
theorem renderFields_eq_join (validator : String) {fields : List Field} (h : fields ≠ []) :
    renderFields validator fields =
      fieldSeparator.intercalate (fields.map (pieceText validator)) ++ fieldSeparator := by
  induction fields with
  | nil => exact absurd rfl h
  | cons field rest ih =>
    obtain ⟨key, value⟩ := field
    rw [renderFields_cons, fieldText]
    cases rest with
    -- Each field brings its separator along, so the last one is left over.
    | nil =>
      rw [renderFields_nil, String.append_empty, List.map_singleton, String.intercalate_singleton,
        pieceText]
    | cons next others =>
      rw [ih (List.cons_ne_nil _ _)]
      simp only [List.map_cons, String.intercalate_cons_cons, pieceText, String.append_assoc]

/-- The wrapper of an object joins the texts of its fields. -/
theorem wrapFields_renderFields (validator : String) (fields : List Field) :
    wrapFields validator (renderFields validator fields) =
      objectText validator (fields.map (pieceText validator)) := by
  have hdrop : dropSeparator (renderFields validator fields) =
      fieldSeparator.intercalate (fields.map (pieceText validator)) := by
    cases fields with
    | nil =>
      -- Nothing is dropped of the empty text.
      show dropSeparator "" = fieldSeparator.intercalate []
      decide +kernel
    | cons field rest =>
      rw [renderFields_eq_join validator (List.cons_ne_nil _ _), dropSeparator_append]
  rw [wrapFields, hdrop, objectText]

end RouteRules
