import RouteRules.Proofs.Schema.Texts
import RouteRules.Proofs.Schema.Typed
import RouteRules.Proofs.Walk.Termination

/-!
# Well-formed schemas

Whether a schema compiles, told without compiling it. A cycle of references is never well-formed,
since well-formed schemas are built up from below; what stands under a replacement may be of any
form. A component is not judged as an object in the place of the reference would be: a replacement
of its own does not count.

## Main definitions

- `WellFormed`: the schemas that can be compiled.
- `Context.Compiles`: a schema compiles in both positions.

## Main statements

- `wellFormed_of_fields`: what compiles is well-formed, whatever its facets are.
- `WellFormed.compiles`: what is well-formed and typed compiles, as a value and as a field.
- `Context.compiles_iff`: the two together.
-/

namespace RouteRules

/-! ## Well-formedness -/

/-- The schemas that can be compiled. -/
inductive WellFormed (c : Context) : Schema → Prop where
  | string {info : Info} {formats : List Value} {pattern : Value} {members : Option (List Value)} :
      WellFormed c (.string info formats pattern members)
  | number {info : Info} {whole : Bool} {minimum maximum : Value} :
      WellFormed c (.number info whole minimum maximum)
  /-- Whatever is replaced by a text. -/
  | replaced {schema : Schema} {code : String} :
      schema.isReference = false → schema.info.replacement = .text code → WellFormed c schema
  | array {info : Info} {items : Schema} :
      info.replacement = .null → WellFormed c items → WellFormed c (.array info items)
  | object {info : Info} {properties : List Schema} :
      info.replacement = .null → properties ≠ [] → (∀ p ∈ properties, WellFormed c p) →
      WellFormed c (.object info properties)
  /-- A reference to a component that is a reference itself. -/
  | renamed {info own : Info} {r target : Reference} :
      c.Names r (.reference own target) → WellFormed c (.reference own target) →
      WellFormed c (.reference info r)
  /-- A reference to an object. A replacement of this object does not count. -/
  | component {info own : Info} {r : Reference} {properties : List Schema} :
      c.Names r (.object own properties) → properties ≠ [] → (∀ p ∈ properties, WellFormed c p) →
      WellFormed c (.reference info r)

/-! ## What compiles is well-formed -/

section Soundness

variable {c : Context} {expand : Expansion}

theorem wellFormed_of_fields_of_expr {schema : Schema} {fields : List Field}
    (hexpand : ∀ r fields, expand r = .ok fields → ∀ info, WellFormed c (.reference info r))
    (hexpr : ∀ e, schema.expr expand = .ok e → WellFormed c schema)
    (h : schema.fields expand = .ok fields) : WellFormed c schema := by
  cases href : schema.isReference with
  | true =>
    cases schema with
    | reference info target => exact hexpand target fields h info
    | _ => cases href
  | false =>
    rw [Schema.fields_of_not_reference _ href] at h
    obtain ⟨e, he, _⟩ := bind_eq_ok.mp h
    exact hexpr e he

theorem fields_of_mem {schemas : List Schema} {fields : List Field} {schema : Schema}
    (h : Schema.fieldsOfAll expand schemas = .ok fields) (hmem : schema ∈ schemas) :
    ∃ own, schema.fields expand = .ok own := by
  rw [Schema.fieldsOfAll_eq_mapM] at h
  obtain ⟨own, hown, _⟩ := map_eq_ok.mp h
  exact exists_of_mapM_eq_ok hown hmem

/-- A schema that has an expression is well-formed, if the references that have fields are. -/
theorem wellFormed_of_expr
    (hexpand : ∀ r fields, expand r = .ok fields → ∀ info, WellFormed c (.reference info r))
    (schema : Schema) (e : Expr) (h : schema.expr expand = .ok e) : WellFormed c schema := by
  induction schema generalizing e with
  | string info formats pattern members => exact .string
  | number info whole minimum maximum => exact .number
  | array info items ih =>
    -- Without a replacement the items have an expression too; with one, they do not matter.
    rcases Info.expr_cases h with ⟨hnull, d, hd⟩ | ⟨code, hcode⟩
    · obtain ⟨i, hi, _⟩ := map_eq_ok.mp hd
      exact .array hnull (ih i hi)
    · exact .replaced rfl hcode
  | object info properties ih =>
    cases properties with
    | nil =>
      rcases Info.expr_cases h with ⟨_, d, hd⟩ | ⟨code, hcode⟩
      · cases hd
      · exact .replaced rfl hcode
    | cons first rest =>
      rcases Info.expr_cases h with ⟨hnull, d, hd⟩ | ⟨code, hcode⟩
      · obtain ⟨fields, hfields, _⟩ := map_eq_ok.mp hd
        apply WellFormed.object hnull (List.cons_ne_nil _ _)
        intro p hp
        obtain ⟨own, hown⟩ := fields_of_mem hfields hp
        exact wellFormed_of_fields_of_expr hexpand (ih p hp) hown
      · exact .replaced rfl hcode
  | reference info target =>
    rw [Schema.expr_reference] at h
    obtain ⟨fields, hfields, _⟩ := map_eq_ok.mp h
    exact hexpand target fields hfields info
  | bareArray info | bareObject info | unsupported info kind =>
    -- Without a replacement these are at fault.
    rcases Info.expr_cases h with ⟨_, d, hd⟩ | ⟨code, hcode⟩
    · cases hd
    · exact .replaced rfl hcode

end Soundness

/-- A reference that stands for fields is well-formed. -/
theorem wellFormed_of_expandWithin {c : Context} {limit : Nat} (r : Reference)
    (fields : List Field) (h : c.expandWithin limit r = .ok fields) (info : Info) :
    WellFormed c (.reference info r) := by
  -- The limit bounds how often a reference is followed, so the induction is on it.
  induction limit generalizing r fields info with
  | zero =>
    obtain ⟨_, _, hendless⟩ := bind_eq_ok.mp h
    cases hendless
  | succ limit ih =>
    obtain ⟨content, hcontent, hfields⟩ := bind_eq_ok.mp h
    rcases content with target | ⟨first, rest⟩
    -- One reference followed, so one less for the next component.
    · obtain ⟨own, hnames⟩ := Context.content_eq_alias.mp hcontent
      exact .renamed hnames (ih target fields hfields own)
    · obtain ⟨own, hnames⟩ := Context.content_eq_properties.mp hcontent
      apply WellFormed.component hnames (List.cons_ne_nil _ _)
      intro p hp
      obtain ⟨_, hown⟩ := fields_of_mem hfields hp
      exact wellFormed_of_fields_of_expr ih (wellFormed_of_expr ih p) hown

/-- A schema that has fields is well-formed. -/
theorem wellFormed_of_fields {c : Context} {schema : Schema} {fields : List Field}
    (h : c.fields schema = .ok fields) : WellFormed c schema :=
  wellFormed_of_fields_of_expr wellFormed_of_expandWithin
    (wellFormed_of_expr wellFormed_of_expandWithin schema) h

/-! ## What is well-formed compiles -/

theorem Info.expr_ok {info : Info} {definition : Except Fault (List Rule → Expr)}
    (htyped : info.isTyped = true) (h : ∃ d, definition = .ok d) :
    ∃ e, info.expr definition = .ok e := by
  obtain ⟨d, rfl⟩ := h
  have hreplacement : info.replacement.isOptionalText = true := by
    simp only [Info.isTyped, Bool.and_eq_true] at htyped
    exact htyped.2
  rcases Value.isOptionalText_iff.mp hreplacement with hnull | ⟨code, hcode⟩
  · exact ⟨_, Info.expr_of_null hnull⟩
  · exact ⟨_, Info.expr_of_text hcode⟩

namespace Schema

variable {expand : Expansion}

theorem fields_ok {schema : Schema} (href : schema.isReference = false)
    (htyped : schema.isTyped = true) (h : ∃ e, schema.expr expand = .ok e) :
    ∃ fields, schema.fields expand = .ok fields := by
  obtain ⟨e, he⟩ := h
  have hinfo := isTyped_info htyped
  simp only [Info.isTyped, Bool.and_eq_true] at hinfo
  -- The name is typed, so there is a key for it.
  obtain ⟨key, hkey⟩ := FieldName.key_ok hinfo.1.1.1
  rw [fields_of_not_reference _ href, Info.fields, he, ok_bind, hkey]
  exact ⟨_, rfl⟩

theorem fieldsOfAll_ok {schemas : List Schema}
    (h : ∀ schema ∈ schemas, ∃ fields, schema.fields expand = .ok fields) :
    ∃ fields, fieldsOfAll expand schemas = .ok fields := by
  obtain ⟨own, hown⟩ := exists_mapM_eq_ok h
  exact ⟨own.flatten, by rw [fieldsOfAll_eq_mapM, hown, map_ok]⟩

theorem expr_ok_of_replaced {schema : Schema} {code : String} (href : schema.isReference = false)
    (h : schema.info.replacement = .text code) : ∃ e, schema.expr expand = .ok e := by
  cases schema with
  | reference info target => cases href
  | object info properties => cases properties <;> exact ⟨_, Info.expr_of_text h⟩
  | _ => exact ⟨_, Info.expr_of_text h⟩

end Schema

/-- The schema compiles in both positions, as a value and as a field. -/
def Context.Compiles (c : Context) (schema : Schema) : Prop :=
  (∃ e, c.expr schema = .ok e) ∧ ∃ fields, c.fields schema = .ok fields

theorem Context.Compiles.of_expr {c : Context} {schema : Schema}
    (href : schema.isReference = false) (htyped : schema.isTyped = true)
    (h : ∃ e, c.expr schema = .ok e) : c.Compiles schema :=
  ⟨h, Schema.fields_ok href htyped h⟩

theorem Context.Compiles.of_expand {c : Context} {info : Info} {r : Reference}
    (h : ∃ fields, c.expand r = .ok fields) : c.Compiles (.reference info r) := by
  obtain ⟨fields, hr⟩ := h
  refine ⟨⟨.object fields [], ?_⟩, fields, hr⟩
  rw [Context.expr, Schema.expr_reference, hr, map_ok]

/-- A schema that is well-formed and typed compiles. A reference need not be typed itself. -/
theorem WellFormed.compiles {c : Context} (hc : c.Typed) {schema : Schema} (h : WellFormed c schema)
    (htyped : schema.isReference = false → schema.isTyped = true) : c.Compiles schema := by
  -- By induction on how the schema is built up: a cycle of references is not built up at all.
  induction h with
  | @string info formats pattern members =>
    have ht := htyped rfl
    simp only [Schema.isTyped, Bool.and_eq_true] at ht
    obtain ⟨rules, hrules⟩ := stringConstraints_ok formats pattern ht.2
    apply Context.Compiles.of_expr rfl (htyped rfl)
    exact Info.expr_ok ht.1.1 ⟨_, by rw [hrules, map_ok]⟩
  | @number info whole minimum maximum =>
    have ht := htyped rfl
    simp only [Schema.isTyped, Bool.and_eq_true] at ht
    obtain ⟨rules, hrules⟩ := numberConstraints_ok whole ht.1.2 ht.2
    apply Context.Compiles.of_expr rfl (htyped rfl)
    exact Info.expr_ok ht.1.1 ⟨_, by rw [hrules, map_ok]⟩
  | replaced href hcode =>
    exact .of_expr href (htyped href) (Schema.expr_ok_of_replaced href hcode)
  | @array info items hnull _ ih =>
    have ht := htyped rfl
    simp only [Schema.isTyped, Bool.and_eq_true] at ht
    obtain ⟨⟨i, hi⟩, _⟩ := ih fun _ => ht.2
    -- Of the items only the expression is used, since they are no field.
    have hitems : items.expr c.expand = .ok i := hi
    apply Context.Compiles.of_expr rfl (htyped rfl)
    exact Info.expr_ok ht.1 ⟨_, by rw [hitems, map_ok]⟩
  | @object info properties hnull hne _ ih =>
    have ht := htyped rfl
    simp only [Schema.isTyped, Bool.and_eq_true] at ht
    have hproperties := Schema.areTyped_iff.mp ht.2
    obtain ⟨fields, hall⟩ : ∃ fields, Schema.fieldsOfAll c.expand properties = .ok fields :=
      Schema.fieldsOfAll_ok fun p hp => (ih p hp fun _ => hproperties p hp).2
    apply Context.Compiles.of_expr rfl (htyped rfl)
    rw [Context.expr, Schema.expr_object _ info hne]
    exact Info.expr_ok ht.1 ⟨_, by rw [hall, map_ok]⟩
  | @renamed info own r target hnames _ ih =>
    apply Context.Compiles.of_expand
    -- What the name stands for is a reference again, so nothing is asked of its own facets.
    obtain ⟨_, fields, htarget⟩ := ih (by simp [Schema.isReference])
    rw [Context.expand_eq, Context.content_eq_alias.mpr ⟨own, hnames⟩]
    exact ⟨fields, htarget⟩
  | @component info own r properties hnames hne _ ih =>
    apply Context.Compiles.of_expand
    -- The properties are typed because the context is, whatever the schema itself is.
    have hproperties := hc.properties hnames
    obtain ⟨fields, hall⟩ : ∃ fields, Schema.fieldsOfAll c.expand properties = .ok fields :=
      Schema.fieldsOfAll_ok fun p hp => (ih p hp fun _ => hproperties p hp).2
    cases properties with
    | nil => exact absurd rfl hne
    | cons first rest =>
      rw [Context.expand_eq, Context.content_eq_properties.mpr ⟨own, hnames⟩]
      exact ⟨fields, hall⟩

namespace Context

/-- A typed schema compiles, in a typed context, exactly if it is well-formed. -/
theorem compiles_iff (c : Context) (schema : Schema) (hc : c.Typed)
    (hschema : schema.isTyped = true) : (∃ t, c.text schema = .ok t) ↔ WellFormed c schema := by
  constructor
  · rintro ⟨t, ht⟩
    obtain ⟨fields, hfields, _⟩ := map_eq_ok.mp ht
    exact wellFormed_of_fields hfields
  · intro h
    obtain ⟨_, fields, hfields⟩ := h.compiles hc fun _ => hschema
    exact ⟨_, by rw [text, hfields, map_ok]⟩

/-- A catalogue in which one name stands for another, and an array holds a component. -/
def household : Context where
  settings := {}
  catalogue := .ofList
    [(.text "Person", .object [("$ref", .text "#/components/schemas/Human")]),
     (.text "Human", .object [("properties", .object
       [("name", .object [("type", .text "string")]),
        ("dogs", .object [("type", .text "array"), ("items", .object [("$ref", .text "Dog")])])])]),
     (.text "Dog", .object [("properties", .object
       [("age", .object [("type", .text "integer")])])])]

/-- A field that is a person of the household. -/
def householdMember : Schema :=
  .reference ⟨.text "p", .bool false, .null, .null, .null, .text ""⟩
    ⟨.text "#/components/schemas/Person", .null⟩

theorem compiles_iff_household : household.Typed ∧ WellFormed household householdMember := by
  have hc : household.Typed := typed_of_entries (by decide +kernel)
  have htext : ∃ t, household.text householdMember = .ok t :=
    ⟨"name: Joi.string(),\n    dogs: Joi.array().items(\n    Joi.object().keys(\x7b\n    "
      ++ "age: Joi.number().integer()\n  \x7d)\n),\n    ", by decide +kernel⟩
  exact ⟨hc, (compiles_iff household householdMember hc (by decide +kernel)).mp htext⟩

end Context

end RouteRules
