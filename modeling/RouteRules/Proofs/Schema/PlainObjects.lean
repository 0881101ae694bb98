import RouteRules.Proofs.Expr.Pieces
import RouteRules.Proofs.Walk.Termination

/-!
# Plain objects

An object schema that states properties, and nothing that would show in its expression besides. It
can stand in many places: as it is, under `schema` in another object, or as a component that a
reference leads to. Wherever it stands, its properties contribute the same fields.

## Main definitions

- `PlainObject`: the entries of such a schema.
- `Nests`, `States`: objects that state it under `schema`, and the values that state it at all.
- `Context.PointsTo`, `Context.IsReferenceTo`: the references that lead to it, through any number of
  other names for it.
- `Context.propertyFields`: the fields of properties as a document states them.

## Main statements

- `Context.expr_of_states`, `Context.fields_of_states`, `Context.memberFields_of_statesObject`: such
  an object as a value, as a field and as a group of its own.
- `Context.PointsTo.expand_eq`: a reference to it stands for the same fields.
-/

namespace RouteRules

/-! ## Facets of objects -/

/-- The facets are those of an object with these required names and these properties. -/
structure Facets.StatesObject (f : Facets) (required : List Value)
    (properties : List (String × Value)) : Prop where
  reference_eq : f.reference? = none
  type_eq : f.type = .object
  requiredNames_eq : f.requiredNames = required
  properties_eq : f.find? "properties" = some (.object properties)
  replacement_eq : f.get "x-joi-replace" = .null

/-- A schema that states properties is an object, whether it says so or states no type. -/
theorem Facets.type_eq_object {f : Facets} {v : Value} (hfind : f.find? "properties" = some v)
    (h : f.decided "type" = .null ∨ f.decided "type" = .text "object") : f.type = .object := by
  unfold type
  rcases h with h | h
  · rw [h, hfind]
    rfl
  · rw [h]
    rfl

/-- The entries of an object schema with these properties, and with no other facet than its type and
a list of required names. -/
structure PlainObject (entries properties : List (String × Value)) : Prop where
  properties_eq : entries.lookup "properties" = some (.object properties)
  properties_ne_nil : properties ≠ []
  type_eq : entries.lookup "type" = none ∨ entries.lookup "type" = some (.text "object")
  required_eq : entries.lookup "required" = none ∨
    ∃ names, entries.lookup "required" = some (.list names)
  plain : ∀ key ∈ ["$ref", "schema", "description", "x-joi-add", "x-joi-replace"],
    entries.lookup key = none

/-- The entries state the schema with the entries `inner` under `schema`, and nothing else that
matters to its properties. -/
structure Nests (inner outer : List (String × Value)) : Prop where
  schema_eq : outer.lookup "schema" = some (.object inner)
  required_ne : ∀ names, outer.lookup "required" ≠ some (.list names)
  plain : ∀ key ∈ ["$ref", "type", "properties", "x-joi-replace"], outer.lookup key = none

/-- The value states the schema with these entries: it is this schema, or it nests it with nothing
beside it that shows. -/
inductive States (entries : List (String × Value)) : Value → Prop where
  | itself : States entries (.object entries)
  | nested {outer : List (String × Value)} :
      Nests entries outer → outer.lookup "required" ≠ some (.bool true) →
      outer.lookup "description" = none → outer.lookup "x-joi-add" = none →
      States entries (.object outer)

namespace PlainObject

variable {entries properties : List (String × Value)} (h : PlainObject entries properties)

include h

theorem ofEntries_eq : Facets.ofEntries entries = ⟨entries, []⟩ := by
  simp only [Facets.ofEntries, Value.field, h.plain "schema" (by simp)]
  rfl

theorem find?_properties :
    (Facets.ofEntries entries).find? "properties" = some (.object properties) := by
  rw [h.ofEntries_eq, Facets.find?, if_neg (by decide), h.properties_eq]

/-- A facet that a plain object does not state is null. -/
theorem get_eq_null {key : String} (hkey : entries.lookup key = none) :
    (Facets.ofEntries entries).get key = .null := by
  rw [h.ofEntries_eq, Facets.get, Facets.find?, hkey]
  split <;> rfl

/-- A list of required names is no flag. -/
theorem required_ne_true : (Facets.ofEntries entries).get "required" ≠ .bool true := by
  rcases h.required_eq with hnone | ⟨names, hnames⟩
  · rw [h.get_eq_null hnone]
    simp
  · have hfind : (Facets.ofEntries entries).find? "required" = some (.list names) := by
      rw [h.ofEntries_eq, Facets.find?, if_neg (by decide), hnames]
    rw [Facets.get, hfind]
    simp

theorem statesObject : (Facets.ofEntries entries).StatesObject
    (Facets.ofEntries entries).requiredNames properties where
  reference_eq := by
    have href := h.plain "$ref" (by simp)
    simp [h.ofEntries_eq, Facets.reference?, Facets.decided, Value.field, href]
  type_eq := by
    apply Facets.type_eq_object h.find?_properties
    rw [h.ofEntries_eq]
    rcases h.type_eq with htype | htype
    · exact .inl (congrArg (·.getD .null) htype)
    · exact .inr (congrArg (·.getD .null) htype)
  requiredNames_eq := rfl
  properties_eq := h.find?_properties
  replacement_eq := h.get_eq_null (h.plain "x-joi-replace" (by simp))

end PlainObject

namespace Nests

variable {inner outer properties : List (String × Value)}

theorem ofEntries_eq (h : Nests inner outer) : Facets.ofEntries outer = ⟨outer, inner⟩ := by
  simp only [Facets.ofEntries, Value.field, h.schema_eq]
  rfl

/-- What the outer object does not state is stated by the inner one. -/
theorem find?_eq (h : Nests inner outer) {key : String} (hkey : key ≠ "schema")
    (hnone : outer.lookup key = none) :
    (Facets.ofEntries outer).find? key = inner.lookup key := by
  rw [h.ofEntries_eq, Facets.find?, if_neg hkey, hnone]

theorem find?_properties (h : Nests inner outer) (hinner : PlainObject inner properties) :
    (Facets.ofEntries outer).find? "properties" = some (.object properties) := by
  rw [h.find?_eq (by decide) (h.plain "properties" (by simp)), hinner.properties_eq]

/-- Unless the outer object asks to be given, neither does the inner one. -/
theorem required_ne_true (h : Nests inner outer) (hinner : PlainObject inner properties)
    (hrequired : outer.lookup "required" ≠ some (.bool true)) :
    (Facets.ofEntries outer).get "required" ≠ .bool true := by
  rw [h.ofEntries_eq, Facets.get, Facets.find?, if_neg (by decide)]
  cases houter : outer.lookup "required" with
  | some v => exact fun hv => hrequired (houter.trans (congrArg some hv))
  | none =>
    rcases hinner.required_eq with hnone | ⟨names, hnames⟩
    · rw [hnone]
      simp
    · rw [hnames]
      simp

/-- An object that states a plain object under `schema` is one with the same properties. -/
theorem statesObject (h : Nests inner outer) (hinner : PlainObject inner properties) :
    (Facets.ofEntries outer).StatesObject (Facets.ofEntries inner).requiredNames properties where
  reference_eq := by
    have href := h.plain "$ref" (by simp)
    have hnested := hinner.plain "$ref" (by simp)
    simp [h.ofEntries_eq, Facets.reference?, Facets.decided, Value.field, href, hnested]
  type_eq := by
    apply Facets.type_eq_object (h.find?_properties hinner)
    have hnone : Value.field outer "type" = .null :=
      congrArg (·.getD .null) (h.plain "type" (by simp))
    rw [h.ofEntries_eq, Facets.decided, hnone]
    rcases hinner.type_eq with htype | htype
    · exact .inl (by rw [htype])
    · exact .inr (by rw [htype])
  requiredNames_eq := by
    -- Only a list would win over the inner statement.
    have hno : ∀ names, Value.field outer "required" ≠ .list names := by
      intro names hnames
      unfold Value.field at hnames
      cases hlookup : outer.lookup "required" with
      | none =>
        rw [hlookup] at hnames
        cases hnames
      | some v =>
        rw [hlookup] at hnames
        exact h.required_ne names (hlookup.trans (congrArg some hnames))
    rw [h.ofEntries_eq, hinner.ofEntries_eq]
    unfold Facets.requiredNames
    cases houter : Value.field outer "required" with
    | list names => exact absurd houter (hno names)
    | scalar _ | object _ => cases Value.field inner "required" <;> rfl
  properties_eq := h.find?_properties hinner
  replacement_eq := by
    rw [Facets.get, h.find?_eq (by decide) (h.plain "x-joi-replace" (by simp)),
      hinner.plain "x-joi-replace" (by simp)]
    rfl

end Nests

/-! ## The common part under the usual names -/

/-- The names of the facets whose texts are appended and put in place are the usual ones. -/
def Settings.HasUsualKeys (s : Settings) : Prop :=
  s.appendKey = .text "x-joi-add" ∧ s.replaceKey = .text "x-joi-replace"

/-- The common part of the schema at `place`, under the usual names. -/
def Facets.commonPart (f : Facets) (place : Place) : Info where
  name := if place.name.isNull then Value.field f.direct "name" else place.name
  required := if f.get "required" = .bool true then .bool true else place.listed
  description := f.get "description"
  append := f.get "x-joi-add"
  replacement := f.get "x-joi-replace"
  path := place.path

theorem Facets.info_eq_commonPart {s : Settings} (hs : s.HasUsualKeys) (f : Facets)
    (place : Place) : f.info s place = .ok (f.commonPart place) := by
  unfold info
  rw [hs.1, hs.2]
  rfl

/-- Where nothing is stated that would show, there are no modifiers. -/
theorem Facets.modifiers_commonPart {f : Facets} {place : Place}
    (hrequired : f.get "required" ≠ .bool true) (hlisted : place.listed = .bool false)
    (hdescription : f.get "description" = .null) (happend : f.get "x-joi-add" = .null) :
    (f.commonPart place).modifiers true = [] := by
  unfold Info.modifiers Info.isRequired commonPart
  rw [if_neg hrequired, hlisted, hdescription, happend]
  rfl

/-! ## The fields of an object -/

namespace Context

variable {c : Context} {required : List Value} {properties : List (String × Value)}

/-- The fields of these properties, of which those with these names are required. -/
def propertyFields (c : Context) (required : List Value) (properties : List (String × Value)) :
    Except Fault (List Field) :=
  Schema.readProperties c.settings { path := .null } required properties >>=
    Schema.fieldsOfAll c.expand

/-- The place of an object does not show in its fields. -/
theorem readProperties_bind_eq (place : Place) :
    (Schema.readProperties c.settings place required properties >>= Schema.fieldsOfAll c.expand) =
      c.propertyFields required properties := by
  -- No field shows a path, so the properties can be compared without their paths.
  have hunplaced : ∀ x : Except Fault (List Schema), (x >>= Schema.fieldsOfAll c.expand) =
      Schema.unplacedAll <$> x >>= Schema.fieldsOfAll c.expand := by
    intro x
    cases x with
    | error fault => rfl
    | ok schemas => exact (Schema.fieldsOfAll_unplaced c.expand schemas).symm
  rw [propertyFields, hunplaced, hunplaced (Schema.readProperties _ { path := .null } _ _)]
  congr 1
  exact Schema.unplaced_readProperties fun key v _ =>
    Schema.unplaced_read (place.property required key)
      (Place.property { path := .null } required key) rfl rfl v

/-- An object with properties, wherever it stands: whatever depends on the schemas of its properties
only is what it is made of. -/
theorem read_bind_of_statesObject {α : Type} {entries : List (String × Value)}
    (hs : c.settings.HasUsualKeys) (h : (Facets.ofEntries entries).StatesObject required properties)
    (hne : properties ≠ []) (place : Place) {f : Schema → Except Fault α} {g : List Field → α}
    (hf : ∀ schemas, schemas ≠ [] →
      f (.object ((Facets.ofEntries entries).commonPart place) schemas) =
        g <$> Schema.fieldsOfAll c.expand schemas) :
    (Schema.read c.settings place (.object entries) >>= f) =
      g <$> c.propertyFields required properties := by
  rw [Schema.read_of_properties h.reference_eq h.type_eq h.properties_eq,
    Facets.info_eq_commonPart hs, ok_bind, h.requiredNames_eq, ← readProperties_bind_eq place]
  cases hread : Schema.readProperties c.settings place required properties with
  | error fault => rfl
  | ok schemas =>
    -- There are as many schemas as properties, so there is one.
    apply hf schemas
    rintro rfl
    rw [Schema.readProperties_eq_mapM] at hread
    cases mapM_eq_ok.mp hread
    exact hne rfl

variable {entries : List (String × Value)}

/-- An object that is a group of its own has the fields of its properties. -/
theorem memberFields_of_statesObject (hs : c.settings.HasUsualKeys)
    (h : (Facets.ofEntries entries).StatesObject required properties) (hne : properties ≠ [])
    (place : Place) : (Schema.read c.settings place (.object entries) >>= c.memberFields) =
      c.propertyFields required properties := by
  rw [← id_map (c.propertyFields required properties)]
  refine read_bind_of_statesObject hs h hne place fun schemas hschemas => ?_
  rw [memberFields, Schema.memberFields_object c.expand h.replacement_eq hschemas, id_map]

/-- What is stated without anything that shows, and is not required, has no modifiers. -/
theorem exists_statesObject {v : Value} (hplain : PlainObject entries properties)
    (h : States entries v) : ∃ own, v = .object own ∧
      (Facets.ofEntries own).StatesObject (Facets.ofEntries entries).requiredNames properties ∧
      ∀ place : Place, place.listed = .bool false →
        ((Facets.ofEntries own).commonPart place).modifiers true = [] := by
  cases h with
  | itself =>
    refine ⟨entries, rfl, hplain.statesObject, fun place hlisted => ?_⟩
    exact Facets.modifiers_commonPart hplain.required_ne_true hlisted
      (hplain.get_eq_null (hplain.plain "description" (by simp)))
      (hplain.get_eq_null (hplain.plain "x-joi-add" (by simp)))
  | @nested outer hnests hrequired hdescription happend =>
    refine ⟨outer, rfl, hnests.statesObject hplain, fun place hlisted => ?_⟩
    refine Facets.modifiers_commonPart (hnests.required_ne_true hplain hrequired) hlisted ?_ ?_
    · rw [Facets.get, hnests.find?_eq (by decide) hdescription,
        hplain.plain "description" (by simp)]
      rfl
    · rw [Facets.get, hnests.find?_eq (by decide) happend, hplain.plain "x-joi-add" (by simp)]
      rfl

/-- A plain object as a value has no more than its fields. -/
theorem expr_of_states {v : Value} (hs : c.settings.HasUsualKeys)
    (hplain : PlainObject entries properties) (h : States entries v) {place : Place}
    (hlisted : place.listed = .bool false) : (Schema.read c.settings place v >>= c.expr) =
      (Expr.object · []) <$>
        c.propertyFields (Facets.ofEntries entries).requiredNames properties := by
  obtain ⟨own, rfl, hobject, hmodifiers⟩ := exists_statesObject hplain h
  refine read_bind_of_statesObject hs hobject hplain.properties_ne_nil place ?_
  intro schemas hschemas
  rw [expr, Schema.expr_object_of_null c.expand hobject.replacement_eq hschemas,
    hmodifiers place hlisted]

/-- A plain object as a field has no more than its fields under its key. -/
theorem fields_of_states {v : Value} (hs : c.settings.HasUsualKeys)
    (hplain : PlainObject entries properties) (h : States entries v) {place : Place}
    (hlisted : place.listed = .bool false) {key : String}
    (hkey : FieldName.key (if place.name.isNull then Value.field v.entries "name"
      else place.name) = .ok key) : (Schema.read c.settings place v >>= c.fields) =
      (fun fields => [(key, Expr.object fields [])]) <$>
        c.propertyFields (Facets.ofEntries entries).requiredNames properties := by
  obtain ⟨own, rfl, hobject, hmodifiers⟩ := exists_statesObject hplain h
  refine read_bind_of_statesObject hs hobject hplain.properties_ne_nil place ?_
  intro schemas hschemas
  have hname : FieldName.key ((Facets.ofEntries own).commonPart place).name = .ok key := hkey
  rw [fields, Schema.fields_of_not_reference c.expand rfl,
    Schema.expr_object_of_null c.expand hobject.replacement_eq hschemas, hmodifiers place hlisted]
  cases Schema.fieldsOfAll c.expand schemas with
  | error fault => rfl
  | ok written =>
    show (FieldName.key ((Facets.ofEntries own).commonPart place).name >>= _) = _
    rw [hname]
    rfl

/-! ## References to an object -/

/-- A reference that leads to a component with these entries: it names the component, or another one
that is nothing but a reference that leads there. -/
inductive PointsTo (c : Context) (entries : List (String × Value)) : Value → Prop where
  | component {path : Value} {name : String} :
      c.settings.componentName path = .ok name →
      c.catalogue.find? (.text name) = some (.object entries) → PointsTo c entries path
  | «alias» {path : Value} {name : String} {other : List (String × Value)} :
      c.settings.componentName path = .ok name →
      c.catalogue.find? (.text name) = some (.object other) →
      PointsTo c entries ((Facets.ofEntries other).decided "$ref") → PointsTo c entries path

/-- The value is a reference that leads to a component with these entries. -/
def IsReferenceTo (c : Context) (entries : List (String × Value)) (v : Value) : Prop :=
  ∃ own, v = .object own ∧ c.PointsTo entries ((Facets.ofEntries own).decided "$ref")

theorem PointsTo.ne_null {path : Value} (h : c.PointsTo entries path) : path ≠ .null := by
  rintro rfl
  cases h with
  | component hname _ => cases hname
  | «alias» hname _ _ => cases hname

/-- What states a reference that leads somewhere is read as this reference. -/
theorem read_of_pointsTo {own : List (String × Value)} (hs : c.settings.HasUsualKeys)
    (h : c.PointsTo entries ((Facets.ofEntries own).decided "$ref")) (place : Place) :
    Schema.read c.settings place (.object own) =
      .ok (.reference ((Facets.ofEntries own).commonPart place)
        ⟨(Facets.ofEntries own).decided "$ref", Value.field own "operationId"⟩) := by
  have href : (Facets.ofEntries own).reference? =
      some ⟨(Facets.ofEntries own).decided "$ref", Value.field own "operationId"⟩ := by
    unfold Facets.reference?
    split
    · rename_i hnull
      exact absurd hnull h.ne_null
    · rfl
  rw [Schema.read_of_reference href, Facets.info_eq_commonPart hs, map_ok]

theorem resolve_eq_read {path id v : Value} {name : String}
    (hname : c.settings.componentName path = .ok name)
    (hfind : c.catalogue.find? (.text name) = some v) :
    c.resolve path id = Schema.read c.settings { path, name := id } v := by
  simp only [resolve, hname, ok_bind, hfind]

/-- A reference that leads to a plain object stands for its fields. -/
theorem PointsTo.expand_eq {path : Value} (hs : c.settings.HasUsualKeys)
    (hplain : PlainObject entries properties) (h : c.PointsTo entries path) (id : Value) :
    c.expand ⟨path, id⟩ =
      c.propertyFields (Facets.ofEntries entries).requiredNames properties := by
  -- Induction on the way to the component. Each name on it may give the next one another
  -- identifier.
  induction h generalizing id with
  | component hname hfind =>
    rw [Context.expand_eq, content_eq, bind_assoc, resolve_eq_read hname hfind,
      ← id_map (c.propertyFields _ _)]
    refine read_bind_of_statesObject hs hplain.statesObject hplain.properties_ne_nil _ ?_
    intro schemas hschemas
    cases schemas with
    | nil => exact absurd rfl hschemas
    | cons first rest => exact (id_map _).symm
  | «alias» hname hfind hpoints ih =>
    rw [Context.expand_eq, content_eq, resolve_eq_read hname hfind, read_of_pointsTo hs hpoints]
    exact ih _

end Context

end RouteRules
