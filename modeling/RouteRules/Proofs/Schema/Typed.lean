import RouteRules.Proofs.Components
import RouteRules.Proofs.Table

/-!
# Schemas with facets of the expected types

A facet keeps whatever value a document gives it. If the values are of the types that facets are
meant to have, keys and rules can be written for them, so only the shape of a schema can be at
fault.

## Main definitions

- `Schema.isTyped`: the facets of a schema, and of its parts, are of the expected types.
- `Context.Typed`: so are those of all components.

## Main statements

- `FieldName.key_ok`, `stringConstraints_ok`, `numberConstraints_ok`: such facets can be written.
- `Context.Typed.properties`: the properties of a component are typed under every reference to it.
-/

namespace RouteRules

/-! ## Types of facets -/

namespace Value

def isText : Value → Bool
  | text _ => true
  | _ => false

def isOptionalText (v : Value) : Bool := v.isNull || v.isText

/-- Whether the value is a number that has a literal. -/
def isNumber : Value → Bool
  | int n => (Binary64.ofInt? n).isSome
  | float _ => true
  | _ => false

def isLimit (v : Value) : Bool := v.isNull || v.isNumber

/-- Whether the value can be a member of an allow-list. -/
def isMember : Value → Bool
  | null => true
  | bool _ => true
  | text _ => true
  | v => v.isNumber

theorem isText_iff {v : Value} : v.isText = true ↔ ∃ s, v = .text s := by
  cases v with
  | scalar s => cases s <;> simp [isText]
  | list items => simp [isText]
  | object entries => simp [isText]

theorem isOptionalText_iff {v : Value} :
    v.isOptionalText = true ↔ v = .null ∨ ∃ s, v = .text s := by
  rw [isOptionalText, Bool.or_eq_true, isNull_iff, isText_iff]

end Value

def Info.isTyped (info : Info) : Bool :=
  info.name.isOptionalText && info.description.isOptionalText && info.append.isOptionalText
    && info.replacement.isOptionalText

namespace Schema

mutual

/-- Whether the facets of the schema and of its parts are of the expected types. -/
def isTyped : Schema → Bool
  | string info _ pattern members =>
    info.isTyped && pattern.isOptionalText && (members.getD []).all Value.isMember
  | number info _ minimum maximum => info.isTyped && minimum.isLimit && maximum.isLimit
  | array info items => info.isTyped && items.isTyped
  | bareArray info => info.isTyped
  | object info properties => info.isTyped && areTyped properties
  | bareObject info => info.isTyped
  | reference info target => info.isTyped && target.path.isText
  | unsupported info _ => info.isTyped

/-- Whether the facets of all schemas are of the expected types. -/
def areTyped : List Schema → Bool
  | [] => true
  | schema :: rest => schema.isTyped && areTyped rest

end

theorem areTyped_iff {schemas : List Schema} :
    areTyped schemas = true ↔ ∀ schema ∈ schemas, schema.isTyped = true := by
  induction schemas with
  | nil => simp [areTyped]
  | cons schema rest ih => simp [areTyped, ih]

theorem isTyped_info {schema : Schema} (h : schema.isTyped = true) :
    schema.info.isTyped = true := by
  cases schema <;> simp_all [isTyped, info]

theorem areTyped_unplacedAll {schemas : List Schema}
    (h : ∀ schema ∈ schemas, schema.unplaced.isTyped = schema.isTyped) :
    areTyped (unplacedAll schemas) = areTyped schemas := by
  induction schemas with
  | nil => rfl
  | cons schema rest ih =>
    rw [unplacedAll, areTyped, areTyped, h schema (List.mem_cons_self ..),
      ih fun other hother => h other (List.mem_cons_of_mem _ hother)]

/-- The path of a schema has no part in this. -/
@[simp] theorem isTyped_unplaced (schema : Schema) :
    schema.unplaced.isTyped = schema.isTyped := by
  -- Of the common part, only the path changes, and it is no facet.
  induction schema with
  | array info items ih => simp only [unplaced, isTyped, ih, Info.isTyped, Info.unplaced]
  | object info properties ih =>
    simp only [unplaced, isTyped, areTyped_unplacedAll ih, Info.isTyped, Info.unplaced]
  | _ => rfl

end Schema

/-! ## Typed facets can be written -/

theorem FieldName.key_ok {name : Value} (h : name.isOptionalText = true) :
    ∃ key, FieldName.key name = .ok key := by
  rcases Value.isOptionalText_iff.mp h with rfl | ⟨s, rfl⟩
  · exact ⟨_, rfl⟩
  -- A blank name is written as the empty key.
  · by_cases hblank : (Value.text s).isBlank = true
    · exact ⟨quote "", by simp only [key, ofValue, hblank]; rfl⟩
    · exact ⟨quote s, by simp only [key, ofValue, hblank]; rfl⟩

theorem intLiteral_ok {n : Int} (h : (Binary64.ofInt? n).isSome = true) :
    ∃ text, intLiteral n = .ok text := by
  obtain ⟨x, hx⟩ := Option.isSome_iff_exists.mp h
  unfold intLiteral
  -- Either way of writing it starts from the nearest double, which there is.
  rw [hx]
  split
  · exact ⟨_, rfl⟩
  · exact ⟨_, rfl⟩

theorem literal_ok {v : Value} (h : v.isNumber = true) : ∃ text, v.literal = .ok text := by
  cases v with
  | scalar s =>
    cases s with
    | int n => exact intLiteral_ok h
    | float x => exact ⟨_, rfl⟩
    | _ => cases h
  | _ => cases h

theorem memberText_ok {v : Value} (h : v.isMember = true) :
    ∃ text, Rule.memberText v = .ok text := by
  cases v with
  | scalar s =>
    cases s with
    | int n => exact intLiteral_ok h
    | _ => exact ⟨_, rfl⟩
  | _ => cases h

theorem stringConstraints_ok (formats : List Value) (pattern : Value)
    {members : Option (List Value)} (h : (members.getD []).all Value.isMember = true) :
    ∃ rules, stringConstraints formats pattern members = .ok rules := by
  cases members with
  | none => exact ⟨_, rfl⟩
  | some vs =>
    have hmembers : ∀ v ∈ vs, ∃ text, Rule.memberText v = .ok text :=
      fun v hv => memberText_ok (List.all_eq_true.mp h v hv)
    obtain ⟨texts, htexts⟩ := exists_mapM_eq_ok hmembers
    simp only [stringConstraints, htexts, ok_bind, pure_eq_ok]
    exact ⟨_, rfl⟩

theorem limitRule_ok (rule : String → Rule) {limit : Value} (h : limit.isLimit = true) :
    ∃ rules, limitRule rule limit = .ok rules := by
  unfold limitRule
  rcases Bool.or_eq_true_iff.mp h with hnull | hnumber
  · exact ⟨[], if_pos hnull⟩
  · obtain ⟨text, htext⟩ := literal_ok hnumber
    split
    · exact ⟨_, rfl⟩
    · exact ⟨[rule text], by rw [htext, map_ok]⟩

theorem numberConstraints_ok (whole : Bool) {minimum maximum : Value}
    (hmin : minimum.isLimit = true) (hmax : maximum.isLimit = true) :
    ∃ rules, numberConstraints whole minimum maximum = .ok rules := by
  obtain ⟨lower, hlower⟩ := limitRule_ok .minimum hmin
  obtain ⟨upper, hupper⟩ := limitRule_ok .maximum hmax
  simp only [numberConstraints, hlower, hupper, ok_bind, pure_eq_ok]
  exact ⟨_, rfl⟩

/-! ## Typed components -/

/-- The facets of all components, read under no name but their own, are of the expected types. -/
def Context.Typed (c : Context) : Prop :=
  ∀ (reference : Value) (schema : Schema), c.resolve reference .null = .ok schema →
    schema.isTyped = true

theorem Schema.unplacedContent?_object {info : Info} {first : Schema} {rest : List Schema}
    {schema : Schema}
    (h : schema.unplacedContent? = (Schema.object info (first :: rest)).unplacedContent?) :
    ∃ info' properties, schema = .object info' properties ∧
      unplacedAll properties = unplacedAll (first :: rest) := by
  cases schema with
  | object info' properties =>
    refine ⟨info', properties, rfl, ?_⟩
    cases properties with
    | nil => cases h
    | cons first' rest' =>
      simp only [unplacedContent?, content?, Option.map_some, Content.unplaced, Option.some.injEq,
        Content.properties.injEq] at h
      rw [unplacedAll, unplacedAll, h.1, h.2]
  | reference info' target => cases h
  | _ => cases h

/-- A component that is an object has typed properties, under every reference to it. -/
theorem Context.Typed.properties {c : Context} (hc : c.Typed) {r : Reference} {info : Info}
    {properties : List Schema} (h : c.Names r (.object info properties)) :
    ∀ p ∈ properties, p.isTyped = true := by
  cases properties with
  | nil =>
    intro p hp
    cases hp
  | cons first rest =>
    obtain ⟨name, v, hname, hfind, hread⟩ := h
    -- Read under no name, the component has the same properties but for their paths.
    have hagree := Schema.unplacedContent?_read c.settings
      { path := r.path, name := r.operationId } { path := r.path } v
    rw [hread, map_ok] at hagree
    obtain ⟨schema, hschema, hcontent⟩ := map_eq_ok.mp hagree.symm
    obtain ⟨info', properties, rfl, hall⟩ := Schema.unplacedContent?_object hcontent
    have htyped := hc r.path _ (resolve_eq_ok.mpr ⟨name, v, hname, hfind, hschema⟩)
    rw [Schema.isTyped, Bool.and_eq_true,
      ← Schema.areTyped_unplacedAll fun p _ => p.isTyped_unplaced, hall,
      Schema.areTyped_unplacedAll fun p _ => p.isTyped_unplaced] at htyped
    exact Schema.areTyped_iff.mp htyped.2

/-- The place where a schema is read has no part in the types of its facets. -/
theorem Schema.isTyped_read (s : Settings) (place other : Place) (hname : place.name = other.name)
    (hlisted : place.listed = other.listed) (v : Value) :
    isTyped <$> read s place v = isTyped <$> read s other v := by
  have hpath : ∀ x : Except Fault Schema, isTyped <$> x = isTyped <$> unplaced <$> x := by
    intro x
    cases x with
    | ok schema => simp
    | error fault => rfl
  rw [hpath, unplaced_read place other hname hlisted v, ← hpath]

/-- It is enough to read every component once. -/
theorem Context.typed_of_entries {c : Context}
    (h : ∀ e ∈ c.catalogue.entries,
      Schema.isTyped <$> Schema.read c.settings { path := .null } e.2 ≠ .ok false) : c.Typed := by
  intro reference schema hschema
  obtain ⟨name, v, _, hfind, hread⟩ := resolve_eq_ok.mp hschema
  have hread : Schema.read c.settings { path := reference } v = .ok schema := hread
  have hentry := h _ (Table.mem_of_lookup hfind)
  rw [Schema.isTyped_read c.settings { path := .null } { path := reference } rfl rfl, hread,
    map_ok] at hentry
  simpa using hentry

end RouteRules
