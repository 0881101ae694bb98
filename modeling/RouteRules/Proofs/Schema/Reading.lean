import RouteRules.Schema.Reader
import RouteRules.Proofs.Outcome

/-!
# Reading a schema, one level at a time

`Schema.read` goes through a whole document value. Here each level of it has an equation of its own,
in which the parts of a schema are read by `Schema.read` again.

## Main statements

- `Schema.read_object`: reading an object reads its common part, then its reference or its type.
- `Schema.form_of_read`: what a schema that has been read is made of.
- `Schema.blameless_read`: what cannot be read fails in a single value.
-/

namespace RouteRules

/-- The place of a property of the object at `place`. -/
def Place.property (place : Place) (required : List Value) (key : String) : Place where
  path := place.propertyPath key
  name := .text key
  listed := .bool (required.contains (.text key))

namespace Schema

/-! ## Equations -/

/-- An array that states these items, if it states any. -/
def readArray (s : Settings) (place : Place) (info : Info) : Option Value → Except Fault Schema
  | none | some .null => .ok (.bareArray info)
  | some items => .array info <$> read s { path := place.itemsPath } items

/-- An object that states these properties, if it states any. -/
def readObject (s : Settings) (place : Place) (info : Info) (required : List Value) :
    Option Value → Except Fault Schema
  | none | some .null => .ok (.bareObject info)
  | some (.object properties) => .object info <$> readProperties s place required properties
  | some _ => .error .noFields

/-- A schema that is no reference, by its type. -/
def readTyped (s : Settings) (place : Place) (f : Facets) (info : Info) : Except Fault Schema :=
  match f.type with
  | .string => .string info f.formats (f.get "pattern") <$> f.members
  | .number whole => .ok (.number info whole (f.get "minimum") (f.get "maximum"))
  | .array => readArray s place info (f.find? "items")
  | .object => readObject s place info f.requiredNames (f.find? "properties")
  | .other kind => .ok (.unsupported info kind)

/-- A schema with its common part: a reference, or else what its type says. -/
def readKind (s : Settings) (place : Place) (f : Facets) (info : Info) : Except Fault Schema :=
  match f.reference? with
  | some target => .ok (.reference info target)
  | none => readTyped s place f info

theorem read_object (s : Settings) (place : Place) (entries : List (String × Value)) :
    read s place (.object entries) =
      (Facets.ofEntries entries).info s place >>= readKind s place (Facets.ofEntries entries) := by
  rw [read]
  cases (Facets.ofEntries entries).info s place with
  | error fault => rfl
  | ok info =>
    simp only [ok_bind, readKind, readTyped]
    -- `read` matches on all facets in one body; the cases here follow it.
    cases (Facets.ofEntries entries).reference? with
    | some target => rfl
    | none =>
      simp only [pure_eq_ok]
      cases (Facets.ofEntries entries).type with
      | string => exact bind_ok_eq_map _ _
      | number whole => rfl
      | array =>
        cases (Facets.ofEntries entries).find? "items" with
        | none => rfl
        | some items =>
          simp only [bind_ok_eq_map, readArray]
          cases items with
          | scalar v => cases v <;> rfl
          | list _ => rfl
          | object _ => rfl
      | object =>
        cases (Facets.ofEntries entries).find? "properties" with
        | none => rfl
        | some properties =>
          simp only [bind_ok_eq_map, readObject]
          cases properties with
          | scalar v => cases v <;> rfl
          | list _ => rfl
          | object _ => rfl
      | other kind => rfl

theorem read_of_not_object (s : Settings) (place : Place) {v : Value}
    (h : ∀ entries, v ≠ .object entries) : read s place v = .error .noFields := by
  cases v with
  | object entries => exact absurd rfl (h entries)
  | scalar _ => simp [read]
  | list _ => simp [read]

theorem readProperties_nil (s : Settings) (place : Place) (required : List Value) :
    readProperties s place required [] = .ok [] := by
  rw [readProperties]

theorem readProperties_cons (s : Settings) (place : Place) (required : List Value) (key : String)
    (v : Value) (rest : List (String × Value)) :
    readProperties s place required ((key, v) :: rest) =
      read s (place.property required key) v >>= fun property =>
        (property :: ·) <$> readProperties s place required rest := by
  -- Reading goes on to the rest only after a property that is read.
  rw [readProperties]
  simp only [pure_eq_ok, bind_ok_eq_map]
  rfl

/-- The properties of an object are read one after the other. -/
theorem readProperties_eq_mapM (s : Settings) (place : Place) (required : List Value)
    (properties : List (String × Value)) :
    readProperties s place required properties =
      properties.mapM fun e => read s (place.property required e.1) e.2 := by
  induction properties with
  | nil => exact readProperties_nil s place required
  | cons entry rest ih =>
    rw [readProperties_cons, List.mapM_cons, ih]
    exact bind_congr fun property => (bind_ok_eq_map _ _).symm

/-- Of the entries of a schema, only what is found under a key matters. -/
theorem read_congr {s : Settings} {entries others : List (String × Value)}
    (h : ∀ key, entries.lookup key = others.lookup key) (place : Place) :
    read s place (.object entries) = read s place (.object others) := by
  -- Fields, nested entries and the choice between the two places are all lookups.
  have hfield : ∀ key, Value.field entries key = Value.field others key :=
    fun key => congrArg (·.getD .null) (h key)
  have hnested : (Facets.ofEntries entries).nested = (Facets.ofEntries others).nested :=
    congrArg Value.entries (hfield "schema")
  have hdirect : ∀ key, Value.field (Facets.ofEntries entries).direct key =
      Value.field (Facets.ofEntries others).direct key := hfield
  have hfind : ∀ key,
      (Facets.ofEntries entries).find? key = (Facets.ofEntries others).find? key := by
    intro key
    have hkey : (Facets.ofEntries entries).direct.lookup key =
        (Facets.ofEntries others).direct.lookup key := h key
    simp only [Facets.find?, hkey, hnested]
  have hget : ∀ key, (Facets.ofEntries entries).get key = (Facets.ofEntries others).get key :=
    fun key => congrArg (·.getD .null) (hfind key)
  have hdecided : ∀ key,
      (Facets.ofEntries entries).decided key = (Facets.ofEntries others).decided key := by
    intro key
    simp only [Facets.decided, hnested, hdirect]
  have hinfo : (Facets.ofEntries entries).info s place =
      (Facets.ofEntries others).info s place := by
    simp only [Facets.info, Facets.named, hget, hdirect]
  -- Each facet is one of these lookups.
  have hkind : ∀ info, readKind s place (Facets.ofEntries entries) info =
      readKind s place (Facets.ofEntries others) info := by
    intro info
    simp only [readKind, readTyped, Facets.reference?, Facets.type, Facets.members, Facets.formats,
      Facets.requiredNames, hfind, hget, hdecided, hdirect, hnested]
  rw [read_object, read_object, hinfo]
  exact bind_congr hkind

theorem read_of_reference {s : Settings} {place : Place} {entries : List (String × Value)}
    {target : Reference} (href : (Facets.ofEntries entries).reference? = some target) :
    read s place (.object entries) =
      (fun info => .reference info target) <$> (Facets.ofEntries entries).info s place := by
  rw [read_object, ← bind_ok_eq_map]
  refine bind_congr fun info => ?_
  simp only [readKind, href]

theorem read_of_items {s : Settings} {place : Place} {entries : List (String × Value)} {v : Value}
    (href : (Facets.ofEntries entries).reference? = none)
    (htype : (Facets.ofEntries entries).type = .array)
    (hitems : (Facets.ofEntries entries).find? "items" = some v) (hv : v ≠ .null) :
    read s place (.object entries) = (Facets.ofEntries entries).info s place >>= fun info =>
      .array info <$> read s { path := place.itemsPath } v := by
  rw [read_object]
  refine bind_congr fun info => ?_
  simp only [readKind, href, readTyped, htype, hitems]
  unfold readArray
  split
  · contradiction
  · rename_i hnull
    cases hnull
    exact absurd rfl hv
  · rename_i hsome
    cases hsome
    rfl

theorem read_of_properties {s : Settings} {place : Place}
    {entries properties : List (String × Value)}
    (href : (Facets.ofEntries entries).reference? = none)
    (htype : (Facets.ofEntries entries).type = .object)
    (hproperties : (Facets.ofEntries entries).find? "properties" = some (.object properties)) :
    read s place (.object entries) = (Facets.ofEntries entries).info s place >>= fun info =>
      .object info <$>
        readProperties s place (Facets.ofEntries entries).requiredNames properties := by
  rw [read_object]
  refine bind_congr fun info => ?_
  simp only [readKind, href, readTyped, htype, hproperties, readObject]

end Schema

/-! ## What is read -/

/-- What the common part of the schema at `place` says, by what the schema states. -/
structure Facets.Common (s : Settings) (place : Place) (f : Facets) (info : Info) : Prop where
  name : info.name = if place.name.isNull then Value.field f.direct "name" else place.name
  required : info.required = if f.get "required" = .bool true then .bool true else place.listed
  description : info.description = f.get "description"
  append : f.named s.appendKey = .ok info.append
  replacement : f.named s.replaceKey = .ok info.replacement

namespace Facets

variable {s : Settings} {place : Place} {f : Facets} {info : Info}

theorem common_of_info (h : f.info s place = .ok info) : f.Common s place info := by
  obtain ⟨append, happend, h⟩ := bind_eq_ok.mp h
  obtain ⟨replacement, hreplacement, h⟩ := bind_eq_ok.mp h
  cases h
  exact ⟨rfl, rfl, rfl, happend, hreplacement⟩

/-- A schema is marked by a flag of its own or by the place where it stands. -/
theorem isRequired_of_info (h : f.info s place = .ok info) : info.isRequired = true ↔
    f.get "required" = .bool true ∨ place.listed.isBlank = false := by
  rw [Info.isRequired, (common_of_info h).required]
  split
  · rename_i hown
    simp [hown, Value.isBlank, Scalar.isBlank]
  · rename_i hown
    simp [hown]

end Facets

/-- The facets of the schema at `place` make up a schema with the common part `info`. -/
inductive Facets.Form (s : Settings) (place : Place) (f : Facets) (info : Info) :
    Schema → Prop where
  | reference {target : Reference} :
      f.reference? = some target → Form s place f info (.reference info target)
  | string {members : Option (List Value)} :
      f.reference? = none → f.type = .string → f.members = .ok members →
      Form s place f info (.string info f.formats (f.get "pattern") members)
  | number {whole : Bool} :
      f.reference? = none → f.type = .number whole →
      Form s place f info (.number info whole (f.get "minimum") (f.get "maximum"))
  | bareArray :
      f.reference? = none → f.type = .array → f.get "items" = .null →
      Form s place f info (.bareArray info)
  | array {v : Value} {items : Schema} :
      f.reference? = none → f.type = .array → f.find? "items" = some v → v ≠ .null →
      Schema.read s { path := place.itemsPath } v = .ok items →
      Form s place f info (.array info items)
  | bareObject :
      f.reference? = none → f.type = .object → f.get "properties" = .null →
      Form s place f info (.bareObject info)
  | object {entries : List (String × Value)} {properties : List Schema} :
      f.reference? = none → f.type = .object → f.find? "properties" = some (.object entries) →
      Schema.readProperties s place f.requiredNames entries = .ok properties →
      Form s place f info (.object info properties)
  | unsupported {kind : Value} :
      f.reference? = none → f.type = .other kind → Form s place f info (.unsupported info kind)

theorem Facets.Form.info_eq {s : Settings} {place : Place} {f : Facets} {info : Info}
    {schema : Schema} (h : f.Form s place info schema) : schema.info = info := by
  cases h <;> rfl

namespace Schema

theorem form_of_readTyped {s : Settings} {place : Place} {f : Facets} {info : Info}
    {schema : Schema} (href : f.reference? = none) (h : readTyped s place f info = .ok schema) :
    f.Form s place info schema := by
  unfold readTyped at h
  split at h
  -- A text.
  · rename_i htype
    obtain ⟨members, hmembers, rfl⟩ := map_eq_ok.mp h
    exact .string href htype hmembers
  -- A number, which is always read.
  · rename_i htype
    cases h
    exact .number href htype
  -- An array: without items, with `null` for them, or with a schema.
  · rename_i htype
    unfold readArray at h
    split at h
    · rename_i hitems
      cases h
      exact .bareArray href htype (by rw [Facets.get, hitems, Option.getD_none])
    · rename_i hitems
      cases h
      exact .bareArray href htype (by rw [Facets.get, hitems, Option.getD_some])
    · rename_i v hv hitems
      obtain ⟨items, hread, rfl⟩ := map_eq_ok.mp h
      exact .array href htype hitems hv hread
  -- An object: as for an array, and anything else for its properties is an error.
  · rename_i htype
    unfold readObject at h
    split at h
    · rename_i hproperties
      cases h
      exact .bareObject href htype (by rw [Facets.get, hproperties, Option.getD_none])
    · rename_i hproperties
      cases h
      exact .bareObject href htype (by rw [Facets.get, hproperties, Option.getD_some])
    · rename_i hproperties
      obtain ⟨properties, hread, rfl⟩ := map_eq_ok.mp h
      exact .object href htype hproperties hread
    · cases h
  · rename_i htype
    cases h
    exact .unsupported href htype

theorem form_of_readKind {s : Settings} {place : Place} {f : Facets} {info : Info}
    {schema : Schema} (h : readKind s place f info = .ok schema) : f.Form s place info schema := by
  unfold readKind at h
  split at h
  · rename_i href
    cases h
    exact .reference href
  · rename_i href
    exact form_of_readTyped href h

/-- A schema that is read is an object with a common part, and its facets make up the rest. -/
theorem form_of_read {s : Settings} {place : Place} {v : Value} {schema : Schema}
    (h : read s place v = .ok schema) : ∃ entries info, v = .object entries ∧
      (Facets.ofEntries entries).info s place = .ok info ∧
      (Facets.ofEntries entries).Form s place info schema := by
  by_cases hv : ∃ entries, v = .object entries
  · obtain ⟨entries, rfl⟩ := hv
    rw [read_object] at h
    obtain ⟨info, hinfo, h⟩ := bind_eq_ok.mp h
    exact ⟨entries, info, rfl, hinfo, form_of_readKind h⟩
  · rw [read_of_not_object s place fun entries he => hv ⟨entries, he⟩] at h
    cases h

/-- A name that the place gives is the name of the schema. -/
theorem name_of_read {s : Settings} {place : Place} {v : Value} {schema : Schema}
    (h : read s place v = .ok schema) (hname : place.name ≠ .null) :
    schema.info.name = place.name := by
  obtain ⟨entries, info, rfl, hinfo, hform⟩ := form_of_read h
  rw [hform.info_eq, (Facets.common_of_info hinfo).name]
  exact if_neg fun hnull => hname (Value.isNull_iff.mp hnull)

/-! ## Induction along the parts that are read -/

theorem sizeOf_lt_of_mem {entries : List (String × Value)} {key : String} {v : Value}
    (h : (key, v) ∈ entries) : sizeOf v < sizeOf (Value.object entries) := by
  have hlt := List.sizeOf_lt_of_mem h
  simp only [Prod.mk.sizeOf_spec, Value.object.sizeOf_spec] at hlt ⊢
  omega

/-- Induction over a document value along the parts of a schema that reading goes into: what is
stated as items, and the properties. -/
theorem reading_induction {motive : Value → Prop}
    (other : ∀ v, (∀ entries, v ≠ .object entries) → motive v)
    (object : ∀ entries,
      (∀ items, (Facets.ofEntries entries).find? "items" = some items → motive items) →
      (∀ properties, (Facets.ofEntries entries).find? "properties" = some (.object properties) →
        ∀ key v, (key, v) ∈ properties → motive v) →
      motive (.object entries)) (v : Value) : motive v := by
  -- Each part is found among the facets, so it is smaller than the schema.
  induction h : sizeOf v using Nat.strongRecOn generalizing v with
  | ind n ih =>
    subst h
    cases v with
    | scalar v => exact other _ fun entries h => by cases h
    | list items => exact other _ fun entries h => by cases h
    | object entries =>
      refine object entries (fun items found => ?_) (fun properties found key w hw => ?_)
      · exact ih _ (Facets.sizeOf_find?_lt found) items rfl
      · have hproperties := Facets.sizeOf_find?_lt found
        have hw := sizeOf_lt_of_mem hw
        exact ih _ (by omega) w rfl

/-! ## Reading blames no schema -/

theorem blameless_named (f : Facets) (key : Value) : Blameless (f.named key) := by
  unfold Facets.named
  split <;> simp

theorem blameless_info (f : Facets) (s : Settings) (place : Place) :
    Blameless (f.info s place) := by
  unfold Facets.info
  apply (blameless_named f _).bind
  intro append
  exact (blameless_named f _).bind fun replacement => blameless_ok _

theorem blameless_members (f : Facets) : Blameless f.members := by
  unfold Facets.members
  split
  · exact blameless_ok _
  · apply Blameless.map _
    unfold Value.asElements
    split <;> simp

theorem blameless_readProperties {s : Settings} {properties : List (String × Value)}
    (h : ∀ key v, (key, v) ∈ properties → ∀ place, Blameless (read s place v)) (place : Place)
    (required : List Value) : Blameless (readProperties s place required properties) := by
  rw [readProperties_eq_mapM]
  exact Blameless.mapM fun e he => h e.1 e.2 he _

/-- What cannot be read fails in a single value: no type is judged, and no reference is followed. -/
theorem blameless_read (s : Settings) (place : Place) (v : Value) : Blameless (read s place v) := by
  induction v using reading_induction generalizing place with
  | other v h =>
    rw [read_of_not_object s place h]
    simp
  | object entries items properties =>
    rw [read_object]
    apply (blameless_info _ s place).bind
    intro info
    unfold readKind
    split
    -- A reference is not followed.
    · exact blameless_ok _
    · unfold readTyped
      split
      -- A text, a number, an array, an object, a schema of another type.
      · exact (blameless_members _).map _
      · exact blameless_ok _
      · unfold readArray
        split
        · exact blameless_ok _
        · exact blameless_ok _
        · rename_i found
          exact (items _ found _).map _
      · unfold readObject
        split
        · exact blameless_ok _
        · exact blameless_ok _
        · rename_i found
          exact (blameless_readProperties (properties _ found) place _).map _
        · simp
      · exact blameless_ok _

end Schema

end RouteRules
