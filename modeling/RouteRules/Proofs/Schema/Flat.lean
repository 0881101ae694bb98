import RouteRules.Proofs.Schema.Reading

/-!
# Flat schemas

A schema that states facets in two places can be written with all of them in one place: the nested
facets under the direct ones, but for the type and the reference, which the nested object decides.
Both forms are read in the same way. Two things are lost where both places speak: of two formats one
is left, and a list of required names is hidden by a flag.

## Main definitions

- `Flattens`: the flat form of a schema.
- `flatten`: one such form.
- `Facets.Agrees`: facets that are the same, but for formats and required names.
- `Schema.withFormats`, `Schema.withMarks`: what the two exceptions bring back.

## Main statements

- `Schema.read_property_marked`: the names that an object requires show in the marks of its
  properties only.
- `Facets.Agrees.readKind_eq`: how schemas whose facets agree are read.
- `Schema.read_flat`: a schema and its flat form.
-/

namespace RouteRules

/-! ## Flat forms -/

/-- The facets of both places in one: the direct ones win, but for the two that the nested object
decides. -/
structure Flattens (entries nested flat : List (String × Value)) : Prop where
  nested_eq : entries.lookup "schema" = some (.object nested)
  nested_none : ∀ key ∈ ["schema", "name", "operationId"], nested.lookup key = none
  flat_none : flat.lookup "schema" = none
  decided_eq : ∀ key ∈ ["type", "$ref"],
    flat.lookup key = (nested.lookup key).or (entries.lookup key)
  direct_eq : ∀ key, key ∉ ["schema", "type", "$ref"] →
    flat.lookup key = (entries.lookup key).or (nested.lookup key)

/-- Whether the nested object wins over the direct facets. -/
def isDecided (key : String) : Bool := key == "type" || key == "$ref"

/-- The direct facets, and those nested ones that none of them overrides. -/
def flatten (entries nested : List (String × Value)) : List (String × Value) :=
  entries.filter (fun e => e.1 != "schema" && !(isDecided e.1 && (nested.lookup e.1).isSome)) ++
    nested.filter fun e => isDecided e.1 || (entries.lookup e.1).isNone

theorem lookup_filter (p : String → Bool) (entries : List (String × Value)) (key : String) :
    (entries.filter fun e => p e.1).lookup key = if p key then entries.lookup key else none := by
  induction entries with
  | nil => simp
  | cons e rest ih =>
    obtain ⟨k, v⟩ := e
    rw [List.filter_cons, List.lookup_cons]
    by_cases hkey : key = k
    · subst hkey
      rw [beq_self_eq_true]
      split
      · rw [List.lookup_cons, beq_self_eq_true]
      · rename_i hp
        rw [ih, if_neg hp]
    · rw [beq_false_of_ne hkey, ← ih]
      split
      · rw [List.lookup_cons, beq_false_of_ne hkey]
      · rfl

theorem lookup_flatten (entries nested : List (String × Value)) (key : String) :
    (flatten entries nested).lookup key =
      (if key != "schema" && !(isDecided key && (nested.lookup key).isSome) then
        entries.lookup key else none).or
      (if isDecided key || (entries.lookup key).isNone then nested.lookup key else none) := by
  rw [flatten, List.lookup_append,
    lookup_filter fun k => k != "schema" && !(isDecided k && (nested.lookup k).isSome),
    lookup_filter fun k => isDecided k || (entries.lookup k).isNone]

/-- Every schema with a nested object has a flat form. -/
theorem flattens_flatten {entries nested : List (String × Value)}
    (hentries : entries.lookup "schema" = some (.object nested))
    (hnested : ∀ key ∈ ["schema", "name", "operationId"], nested.lookup key = none) :
    Flattens entries nested (flatten entries nested) := by
  refine ⟨hentries, hnested, ?_, ?_, ?_⟩
  · rw [lookup_flatten, hnested "schema" (by simp)]
    simp
  -- The type and the reference: what is nested decides, if it is stated.
  · intro key hkey
    have hdecided : isDecided key = true := by
      rcases List.mem_cons.mp hkey with rfl | hkey
      · rfl
      · rw [List.mem_singleton.mp hkey]
        rfl
    have hschema : key ≠ "schema" := by
      rintro rfl
      cases hdecided
    rw [lookup_flatten, hdecided]
    cases nested.lookup key <;> simp [hschema]
  -- All other keys: what is direct decides.
  · intro key hkey
    have hdecided : isDecided key = false := by simp_all [isDecided]
    rw [lookup_flatten, hdecided]
    cases entries.lookup key <;> simp_all

/-! ## Facets that agree -/

/-- The facets are the same, but for formats and for the names of required properties. -/
structure Facets.Agrees (f g : Facets) : Prop where
  find?_eq : ∀ key, key ∉ ["type", "$ref"] → f.find? key = g.find? key
  decided_eq : ∀ key ∈ ["type", "$ref"], f.decided key = g.decided key
  direct_eq : ∀ key ∈ ["name", "operationId"],
    Value.field f.direct key = Value.field g.direct key

namespace Flattens

variable {entries nested flat : List (String × Value)}

theorem ofEntries_eq (h : Flattens entries nested flat) :
    Facets.ofEntries entries = ⟨entries, nested⟩ := by
  simp only [Facets.ofEntries, Value.field, h.nested_eq]
  rfl

theorem ofEntries_flat (h : Flattens entries nested flat) :
    Facets.ofEntries flat = ⟨flat, []⟩ := by
  simp only [Facets.ofEntries, Value.field, h.flat_none]
  rfl

theorem find?_eq (h : Flattens entries nested flat) {key : String} (hkey : key ∉ ["type", "$ref"]) :
    (Facets.mk entries nested).find? key = (Facets.mk flat []).find? key := by
  unfold Facets.find?
  split
  · rename_i hschema
    rw [hschema, h.nested_none "schema" (by simp)]
    rfl
  · rename_i hschema
    rw [h.direct_eq key (by simp_all)]
    cases entries.lookup key <;> cases nested.lookup key <;> rfl

/-- The flat form has the facets of the schema. -/
theorem agrees (h : Flattens entries nested flat) :
    (Facets.ofEntries entries).Agrees (Facets.ofEntries flat) := by
  rw [h.ofEntries_eq, h.ofEntries_flat]
  refine ⟨fun key => h.find?_eq, fun key hkey => ?_, fun key hkey => ?_⟩
  · simp only [Facets.decided, Value.field, h.decided_eq key hkey]
    cases nested.lookup key <;> rfl
  · have hnone := h.nested_none key (List.mem_cons_of_mem _ hkey)
    have hplain : key ∉ ["schema", "type", "$ref"] := by
      intro hmem
      simp only [List.mem_cons, List.not_mem_nil, or_false] at hkey hmem
      rcases hkey with rfl | rfl <;> simp at hmem
    simp only [Value.field, h.direct_eq key hplain, hnone, Option.or_none]

end Flattens

namespace Facets.Agrees

variable {f g : Facets} (h : f.Agrees g)

include h

theorem get_eq (key : String) (hkey : key ∉ ["type", "$ref"]) : f.get key = g.get key := by
  rw [Facets.get, Facets.get, h.find?_eq key hkey]

theorem named_eq {key : Value} (hkey : key ∉ [.text "type", .text "$ref"]) :
    f.named key = g.named key := by
  unfold Facets.named
  split
  · rename_i name
    rw [h.get_eq name fun hname => hkey (List.mem_map_of_mem (f := Value.text) hname)]
  · rfl
  · rfl

theorem info_eq {s : Settings}
    (hkeys : ∀ key ∈ [s.appendKey, s.replaceKey], key ∉ [.text "type", .text "$ref"])
    (place : Place) : f.info s place = g.info s place := by
  unfold Facets.info
  rw [h.named_eq (hkeys s.appendKey (by simp)), h.named_eq (hkeys s.replaceKey (by simp)),
    h.direct_eq "name" (by simp), h.get_eq "required" (by simp), h.get_eq "description" (by simp)]

theorem reference?_eq : f.reference? = g.reference? := by
  unfold Facets.reference?
  rw [h.decided_eq "$ref" (by simp), h.direct_eq "operationId" (by simp)]

theorem type_eq : f.type = g.type := by
  unfold Facets.type
  rw [h.decided_eq "type" (by simp), h.find?_eq "properties" (by simp)]

theorem members_eq : f.members = g.members := by
  unfold Facets.members
  rw [h.get_eq "enum" (by simp)]

end Facets.Agrees

/-! ## Formats and required names -/

/-- The direct statement hides a nested list of required names, because it is no list itself. -/
def HidesRequired (entries nested : List (String × Value)) (names : List Value) : Prop :=
  (∃ v, entries.lookup "required" = some v ∧ ∀ vs, v ≠ .list vs) ∧
    nested.lookup "required" = some (.list names)

namespace Flattens

variable {entries nested flat : List (String × Value)}

/-- The formats of both places, as far as they are not blank. -/
theorem formats_eq (h : Flattens entries nested flat) :
    (Facets.ofEntries entries).formats =
      [Value.field entries "format", Value.field nested "format"].filter (!·.isBlank) := by
  rw [h.ofEntries_eq]
  rfl

/-- If one place only states a format, no format is lost. -/
theorem formats_flat (h : Flattens entries nested flat)
    (hone : entries.lookup "format" = none ∨ nested.lookup "format" = none) :
    (Facets.ofEntries entries).formats = (Facets.ofEntries flat).formats := by
  have hnull : (Value.null).isBlank = true := rfl
  have hflat := h.direct_eq "format" (by simp)
  rw [h.ofEntries_eq, h.ofEntries_flat]
  unfold Facets.formats Value.field
  rcases hone with hone | hone
  · rw [hflat, hone, Option.none_or]
    cases hnested : (nested.lookup "format").getD .null with
    | _ => simp [List.filter_cons, hnull]
  · rw [hflat, hone, Option.or_none]
    rfl

theorem requiredNames_flat (h : Flattens entries nested flat)
    (hnone : ∀ names, ¬HidesRequired entries nested names) :
    (Facets.ofEntries entries).requiredNames = (Facets.ofEntries flat).requiredNames := by
  have hflat := h.direct_eq "required" (by simp)
  rw [h.ofEntries_eq, h.ofEntries_flat]
  unfold Facets.requiredNames Value.field
  rw [hflat]
  cases hdirect : entries.lookup "required" with
  | none =>
    cases hnested : nested.lookup "required" with
    | none => rfl
    | some v => cases v <;> rfl
  | some v =>
    cases v with
    | list names => rfl
    | scalar v | object v =>
      -- What is hidden here is no list.
      cases hnested : nested.lookup "required" with
      | none => rfl
      | some w =>
        cases w with
        | list names => exact absurd ⟨⟨_, hdirect, nofun⟩, hnested⟩ (hnone names)
        | _ => rfl

theorem requiredNames_hidden (h : Flattens entries nested flat) {names : List Value}
    (hhides : HidesRequired entries nested names) :
    (Facets.ofEntries entries).requiredNames = names ∧
      (Facets.ofEntries flat).requiredNames = [] := by
  obtain ⟨⟨v, hdirect, hv⟩, hnested⟩ := hhides
  have hflat := h.direct_eq "required" (by simp)
  rw [h.ofEntries_eq, h.ofEntries_flat]
  unfold Facets.requiredNames Value.field
  rw [hflat, hdirect, hnested]
  cases v with
  | list vs => exact absurd rfl (hv vs)
  | scalar v | object v => exact ⟨rfl, rfl⟩

end Flattens

/-! ## Marks of properties -/

/-- A property that does not ask to be given is marked if its name is listed. -/
def Info.markedBy (names : List Value) (info : Info) : Info :=
  { info with
    required :=
      if info.required = .bool true then .bool true else .bool (names.contains info.name) }

namespace Schema

def mapInfo (f : Info → Info) : Schema → Schema
  | string info formats pattern members => string (f info) formats pattern members
  | number info whole minimum maximum => number (f info) whole minimum maximum
  | array info items => array (f info) items
  | bareArray info => bareArray (f info)
  | object info properties => object (f info) properties
  | bareObject info => bareObject (f info)
  | reference info target => reference (f info) target
  | unsupported info kind => unsupported (f info) kind

/-- A property that does not ask to be given is marked if its name is listed. -/
def markedBy (names : List Value) : Schema → Schema := mapInfo (Info.markedBy names)

/-- The schema is an object that states properties. -/
def isObject : Schema → Bool
  | object _ _ => true
  | _ => false

/-- With these formats, if it is a text. -/
def withFormats (formats : List Value) : Schema → Schema
  | string info _ pattern members => string info formats pattern members
  | schema => schema

/-- With its properties marked by these names, if it is an object. -/
def withMarks (names : List Value) : Schema → Schema
  | object info properties => object info (properties.map (markedBy names))
  | schema => schema

variable {s : Settings}

theorem readProperties_congr {place other : Place} (h : place.path = other.path)
    (required : List Value) (properties : List (String × Value)) :
    readProperties s place required properties = readProperties s other required properties := by
  have hplace : ∀ key, place.property required key = other.property required key := by
    intro key
    simp only [Place.property, Place.propertyPath, h]
  induction properties with
  | nil => rw [readProperties_nil, readProperties_nil]
  | cons entry rest ih => rw [readProperties_cons, readProperties_cons, hplace, ih]

/-- Of a place, only the path matters to the parts of a schema. -/
theorem readKind_mapInfo {place other : Place} (h : place.path = other.path) (f : Facets)
    (g : Info → Info) (info : Info) :
    readKind s place f (g info) = mapInfo g <$> readKind s other f info := by
  unfold readKind
  split
  · rfl
  -- A text, a number and an unknown type do not read their place at all; items and properties only
  -- read the path in it.
  · unfold readTyped
    split
    · cases f.members <;> rfl
    · rfl
    · have hpath : place.itemsPath = other.itemsPath := by rw [Place.itemsPath, Place.itemsPath, h]
      unfold readArray
      rw [hpath]
      split
      · rfl
      · rfl
      · cases read s { path := other.itemsPath } _ <;> rfl
    · unfold readObject
      split
      · rfl
      · rfl
      · rw [readProperties_congr h]
        cases readProperties s other f.requiredNames _ <;> rfl
      · rfl
    · rfl

theorem info_property_marked (f : Facets) (place : Place) (names : List Value) (key : String) :
    f.info s (place.property names key) =
      Info.markedBy names <$> f.info s (place.property [] key) := by
  unfold Facets.info
  cases f.named s.appendKey with
  | error fault => rfl
  | ok append =>
    cases f.named s.replaceKey with
    | error fault => rfl
    | ok replacement =>
      -- With a flag of its own the property is marked anyway.
      by_cases hown : f.get "required" = .bool true
      · simp [Place.property, Info.markedBy, hown, Value.isNull]
      · simp [Place.property, Info.markedBy, hown, Value.isNull]

/-- The names that an object requires show in the marks of its properties only. -/
theorem read_property_marked (place : Place) (names : List Value) (key : String) (v : Value) :
    read s (place.property names key) v = markedBy names <$> read s (place.property [] key) v := by
  by_cases h : ∃ entries, v = .object entries
  · obtain ⟨entries, rfl⟩ := h
    rw [read_object, read_object, info_property_marked]
    cases (Facets.ofEntries entries).info s (place.property [] key) with
    | error fault => rfl
    | ok info =>
      have hpath : (place.property names key).path = (place.property [] key).path := rfl
      exact readKind_mapInfo hpath _ (Info.markedBy names) info
  · have hv : ∀ entries, v ≠ .object entries := fun entries he => h ⟨entries, he⟩
    rw [read_of_not_object s _ hv, read_of_not_object s _ hv]
    rfl

theorem readProperties_marked (place : Place) (names : List Value)
    (properties : List (String × Value)) :
    readProperties s place names properties =
      List.map (markedBy names) <$> readProperties s place [] properties := by
  induction properties with
  | nil =>
    rw [readProperties_nil, readProperties_nil]
    rfl
  | cons entry rest ih =>
    rw [readProperties_cons, readProperties_cons, read_property_marked, ih]
    cases read s (place.property [] entry.1) entry.2 with
    | error fault => rfl
    | ok property => cases readProperties s place [] rest <;> rfl

end Schema

/-! ## Reading flat forms -/

namespace Facets.Agrees

section

variable {f g : Facets} (h : f.Agrees g) (s : Settings) (place : Place) (info : Info)

include h

/-- Facets that agree also in formats and required names are read in the same way. -/
theorem readKind_same (hformats : f.formats = g.formats)
    (hrequired : f.requiredNames = g.requiredNames) :
    Schema.readKind s place f info = Schema.readKind s place g info := by
  unfold Schema.readKind Schema.readTyped
  rw [h.reference?_eq, h.type_eq, hformats, hrequired, h.members_eq,
    h.get_eq "pattern" (by simp),
    h.get_eq "minimum" (by simp),
    h.get_eq "maximum" (by simp),
    h.find?_eq "items" (by simp), h.find?_eq "properties" (by simp)]

/-- Facets that agree are read in the same way but for formats, and for what the required names make
of an object. -/
theorem readKind_eq (marks : Schema → Schema)
    (hmarks : ∀ schema, schema.isObject = false → marks schema = schema)
    (hobject : ∀ properties, Schema.readObject s place info f.requiredNames properties =
      marks <$> Schema.readObject s place info g.requiredNames properties) :
    Schema.readKind s place f info =
      (fun schema => marks (schema.withFormats f.formats)) <$> Schema.readKind s place g info := by
  -- Nothing but a text shows the formats, and nothing but an object the required names.
  have hother : ∀ schema : Schema, schema.isObject = false →
      schema.withFormats f.formats = schema → (.ok schema : Except Fault Schema) =
        (fun schema => marks (schema.withFormats f.formats)) <$> .ok schema := by
    intro schema hkind hsame
    rw [map_ok, hsame, hmarks schema hkind]
  unfold Schema.readKind
  rw [h.reference?_eq]
  split
  · exact hother _ rfl rfl
  · unfold Schema.readTyped
    rw [h.type_eq]
    split
    -- A text: only its formats differ.
    · rw [h.members_eq, h.get_eq "pattern" (by simp)]
      cases g.members with
      | error fault => rfl
      | ok members => exact congrArg Except.ok (hmarks _ rfl).symm
    · rw [h.get_eq "minimum" (by simp),
        h.get_eq "maximum" (by simp)]
      exact hother _ rfl rfl
    · rw [h.find?_eq "items" (by simp)]
      unfold Schema.readArray
      split
      · exact hother _ rfl rfl
      · exact hother _ rfl rfl
      · cases Schema.read s { path := place.itemsPath } _ with
        | error fault => rfl
        | ok items => exact hother _ rfl rfl
    -- An object: only the marks of its properties differ.
    · rw [h.find?_eq "properties" (by simp), hobject]
      unfold Schema.readObject
      split
      · rfl
      · rfl
      · cases Schema.readProperties s place g.requiredNames _ <;> rfl
      · rfl
    · exact hother _ rfl rfl

end

/-- Schemas whose facets agree are read in the same way, with the same exceptions. -/
theorem read_eq {entries flat : List (String × Value)} {s : Settings}
    (hagrees : (ofEntries entries).Agrees (ofEntries flat))
    (hkeys : ∀ key ∈ [s.appendKey, s.replaceKey], key ∉ [.text "type", .text "$ref"])
    (place : Place) (marks : Schema → Schema)
    (hmarks : ∀ schema, schema.isObject = false → marks schema = schema)
    (hobject : ∀ info properties,
      Schema.readObject s place info (ofEntries entries).requiredNames properties =
        marks <$> Schema.readObject s place info (ofEntries flat).requiredNames properties) :
    Schema.read s place (.object entries) =
      (fun schema => marks (schema.withFormats (ofEntries entries).formats)) <$>
        Schema.read s place (.object flat) := by
  rw [Schema.read_object, Schema.read_object, hagrees.info_eq hkeys place]
  cases (ofEntries flat).info s place with
  | error fault => rfl
  | ok info => exact hagrees.readKind_eq s place info marks hmarks (hobject info)

end Facets.Agrees

namespace Schema

theorem readObject_marked (s : Settings) (place : Place) (info : Info) (names : List Value)
    (properties : Option Value) :
    readObject s place info names properties =
      withMarks names <$> readObject s place info [] properties := by
  unfold readObject
  split
  · rfl
  · rfl
  · rw [readProperties_marked]
    cases readProperties s place [] _ <;> rfl
  · rfl

theorem withMarks_of_not_object (names : List Value) {schema : Schema}
    (h : schema.isObject = false) : schema.withMarks names = schema := by
  cases schema with
  | object info properties => cases h
  | _ => rfl

/-- A direct statement alone says whether the schema itself asks to be given. -/
theorem required_of_read {s : Settings} {place : Place} {entries : List (String × Value)}
    {v : Value} {schema : Schema} (hdirect : entries.lookup "required" = some v)
    (h : read s place (.object entries) = .ok schema) :
    schema.info.required = if v = .bool true then .bool true else place.listed := by
  rw [read_object] at h
  obtain ⟨info, hinfo, h⟩ := bind_eq_ok.mp h
  rw [(form_of_readKind h).info_eq, (Facets.common_of_info hinfo).required]
  have hget : (Facets.ofEntries entries).get "required" = v := by
    have hfind : (Facets.ofEntries entries).find? "required" = some v := by
      simp only [Facets.find?, Facets.ofEntries, hdirect]
      rfl
    rw [Facets.get, hfind]
    rfl
  rw [hget]

/-- A schema is read as its flat form is. Where both places state a format, a text has the formats
of both; and where a flag hides a nested list of required names, the properties of an object are
marked by this list, while the flag is that of the schema itself. -/
theorem read_flat (s : Settings) (place : Place) (entries nested flat : List (String × Value))
    (hkeys : ∀ key ∈ [s.appendKey, s.replaceKey], key ∉ [.text "type", .text "$ref"])
    (h : Flattens entries nested flat) :
    ((entries.lookup "format" = none ∨ nested.lookup "format" = none) →
      (∀ names, ¬HidesRequired entries nested names) →
      read s place (.object entries) = read s place (.object flat)) ∧
    ((∀ names, ¬HidesRequired entries nested names) →
      read s place (.object entries) = (fun schema => schema.withFormats
        ([Value.field entries "format", Value.field nested "format"].filter (!·.isBlank))) <$>
          read s place (.object flat)) ∧
    ∀ names, HidesRequired entries nested names →
      read s place (.object entries) = (fun schema => (schema.withFormats
        ([Value.field entries "format", Value.field nested "format"].filter (!·.isBlank))).withMarks
          names) <$> read s place (.object flat) ∧
      ∀ schema, read s place (.object entries) = .ok schema → schema.info.required =
        if Value.field entries "required" = .bool true then .bool true else place.listed := by
  have hagrees := h.agrees
  -- Both excepted cases are one statement, in which `marks` is what hidden names make of an object.
  have hread := fun marks => hagrees.read_eq hkeys place marks
  rw [h.formats_eq] at hread
  refine ⟨fun hone hnone => ?same, fun hnone => ?formats, fun names hhides => ⟨?marks, ?own⟩⟩
  case same =>
    rw [read_object, read_object, hagrees.info_eq hkeys place]
    congr 1
    funext info
    exact hagrees.readKind_same s place info (h.formats_flat hone) (h.requiredNames_flat hnone)
  case formats =>
    apply hread id fun schema _ => rfl
    intro info properties
    rw [h.requiredNames_flat hnone, id_map]
  case marks =>
    obtain ⟨hnames, hempty⟩ := h.requiredNames_hidden hhides
    apply hread (withMarks names) fun schema => withMarks_of_not_object names
    intro info properties
    rw [hnames, hempty, readObject_marked]
  case own =>
    intro schema hschema
    obtain ⟨⟨v, hdirect, _⟩, _⟩ := hhides
    rw [required_of_read hdirect hschema, Value.field, hdirect, Option.getD_some]

def registerNested : List (String × Value) :=
  [("type", .text "object"), ("format", .text "uuid"), ("required", .list [.text "owner"]),
   ("properties", .object [("owner", .object [("type", .text "string")])])]

/-- A schema that states its type, its format and what is required in both places. -/
def register : List (String × Value) :=
  [("name", .text "register"), ("required", .bool true), ("format", .text "email"),
   ("type", .text "string"), ("schema", .object registerNested)]

theorem read_flat_register :
    Flattens register registerNested (flatten register registerNested) ∧
      HidesRequired register registerNested [.text "owner"] ∧
      read {} { path := .text "#" } (.object register) = (fun schema => (schema.withFormats
        [.text "email", .text "uuid"]).withMarks [.text "owner"]) <$>
          read {} { path := .text "#" } (.object (flatten register registerNested)) := by
  have hflattens : Flattens register registerNested (flatten register registerNested) :=
    flattens_flatten rfl (by decide +kernel)
  have hhides : HidesRequired register registerNested [.text "owner"] :=
    ⟨⟨.bool true, rfl, nofun⟩, rfl⟩
  have hkeys : ∀ key ∈ [({} : Settings).appendKey, ({} : Settings).replaceKey],
      key ∉ [.text "type", .text "$ref"] := by
    decide +kernel
  obtain ⟨_, _, hmarks⟩ := read_flat {} { path := .text "#" } _ _ _ hkeys hflattens
  exact ⟨hflattens, hhides, (hmarks _ hhides).1⟩

end Schema

end RouteRules
