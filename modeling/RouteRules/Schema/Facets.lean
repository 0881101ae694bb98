import RouteRules.Settings
import RouteRules.Schema.Basic

/-!
# Facets

A schema states its facets directly or in an object under `schema`. For most facets the direct
statement wins; the type and the reference are decided by the nested object.

## Main statements

- `Facets.sizeOf_find?_lt`: a facet is smaller than the schema it is found in.
-/

namespace RouteRules

/-- The two places where a schema states facets. -/
structure Facets where
  direct : List (String × Value)
  nested : List (String × Value)

/-- Where a schema stands, and what it is given there. -/
structure Place where
  path : Value
  /-- The name of the field; null leaves it to the schema. -/
  name : Value := .null
  /-- The mark of a field that the enclosing object lists as required. -/
  listed : Value := .bool false

/-- The path of the items of the array at `place`. -/
def Place.itemsPath (place : Place) : Value := .text (place.path.display ++ "/items")

/-- The path of a property of the object at `place`. -/
def Place.propertyPath (place : Place) (key : String) : Value :=
  .text (place.path.display ++ "/properties/" ++ key)

/-- The types that a schema can be read as. -/
inductive SchemaType where
  | string
  | number (whole : Bool)
  | array
  | object
  | other (kind : Value)

namespace Facets

/-- The facets of a schema given by its entries. -/
def ofEntries (entries : List (String × Value)) : Facets :=
  ⟨entries, (Value.field entries "schema").entries⟩

/-- A merged facet: the direct statement, or else the nested one. The nested object is no facet
itself. -/
def find? (f : Facets) (key : String) : Option Value :=
  -- Directly under this key stands the nested object.
  if key = "schema" then f.nested.lookup key
  else match f.direct.lookup key with
    | some v => some v
    | none => f.nested.lookup key

/-- A merged facet, null when it is absent. -/
def get (f : Facets) (key : String) : Value := (f.find? key).getD .null

/-- A facet that the nested object decides, if it states it at all. -/
def decided (f : Facets) (key : String) : Value :=
  match f.nested.lookup key with
  | some v => v
  | none => Value.field f.direct key

/-- The merged facet that a setting names. A list or an object names nothing and cannot be looked
up. -/
def named (f : Facets) (key : Value) : Except Fault Value :=
  match key with
  | .text k => .ok (f.get k)
  | .scalar _ => .ok .null
  | _ => .error .compositeKey

/-- The common part of the schema that stands at `place`. -/
def info (f : Facets) (s : Settings) (place : Place) : Except Fault Info := do
  let append ← f.named s.appendKey
  let replacement ← f.named s.replaceKey
  return {
    -- A name given by the enclosing object or operation wins over the schema's own.
    name := if place.name.isNull then Value.field f.direct "name" else place.name
    -- The schema itself can only say yes; if it does not, the enclosing object decides.
    required := if f.get "required" = .bool true then .bool true else place.listed
    description := f.get "description"
    append
    replacement
    path := place.path }

/-- The reference that the schema consists of, if it is one. -/
def reference? (f : Facets) : Option Reference :=
  match f.decided "$ref" with
  | .null => none
  | path => some ⟨path, Value.field f.direct "operationId"⟩

/-- The type of the schema. One that states properties and no type is an object. -/
def type (f : Facets) : SchemaType :=
  match f.decided "type" with
  | .text "string" => .string
  | .text "integer" => .number true
  | .text "number" => .number false
  | .text "array" => .array
  | .text "object" => .object
  -- Stating properties is enough, whatever they are.
  | .null => if (f.find? "properties").isSome then .object else .other .null
  | kind => .other kind

/-- The formats of a text, the direct one first; blank ones do not count. -/
def formats (f : Facets) : List Value :=
  [Value.field f.direct "format", Value.field f.nested "format"].filter (!·.isBlank)

/-- The allow-list of a text. -/
def members (f : Facets) : Except Fault (Option (List Value)) :=
  match f.get "enum" with
  | .null => .ok none
  | v => some <$> v.asElements

/-- The names of required properties: the direct list, or else the nested one. A flag is not a
list. -/
def requiredNames (f : Facets) : List Value :=
  match Value.field f.direct "required", Value.field f.nested "required" with
  | .list names, _ => names
  | _, .list names => names
  | _, _ => []

/-! ## Size of facets -/

theorem sizeOf_lookup_lt {entries : List (String × Value)} {key : String} {v : Value}
    (h : entries.lookup key = some v) : sizeOf v < sizeOf entries := by
  induction entries with
  | nil => simp at h
  | cons e es ih =>
    obtain ⟨k, w⟩ := e
    rw [List.lookup_cons] at h
    split at h
    · cases h
      simp only [List.cons.sizeOf_spec, Prod.mk.sizeOf_spec]
      omega
    · have := ih h
      simp only [List.cons.sizeOf_spec]
      omega

theorem sizeOf_nil_le (entries : List (String × Value)) :
    sizeOf ([] : List (String × Value)) ≤ sizeOf entries := by
  cases entries with
  | nil => exact Nat.le_refl _
  | cons e es =>
    simp only [List.nil.sizeOf_spec, List.cons.sizeOf_spec]
    omega

theorem sizeOf_nested_le (entries : List (String × Value)) :
    sizeOf (ofEntries entries).nested ≤ sizeOf entries := by
  simp only [ofEntries, Value.field]
  cases h : entries.lookup "schema" with
  | none => exact sizeOf_nil_le entries
  | some v =>
    have hv := sizeOf_lookup_lt h
    cases v with
    | object nested =>
      simp only [Option.getD_some, Value.entries, Value.object.sizeOf_spec] at hv ⊢
      omega
    | scalar s => exact sizeOf_nil_le entries
    | list items => exact sizeOf_nil_le entries

/-- A facet is smaller than the schema that states it. -/
theorem sizeOf_find?_lt {entries : List (String × Value)} {key : String} {v : Value}
    (h : (ofEntries entries).find? key = some v) : sizeOf v < sizeOf (Value.object entries) := by
  have hn := sizeOf_nested_le entries
  simp only [find?] at h
  simp only [Value.object.sizeOf_spec]
  split at h
  · have := sizeOf_lookup_lt h
    omega
  · split at h
    · rename_i w hw
      cases h
      have := sizeOf_lookup_lt hw
      simp only [ofEntries] at this
      omega
    · have := sizeOf_lookup_lt h
      omega

end Facets

end RouteRules
