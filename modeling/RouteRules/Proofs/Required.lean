import RouteRules.Proofs.Route.PlainObjects
import RouteRules.Proofs.Schema.Flat
import RouteRules.Proofs.Schema.Verbatim

/-!
# Required properties

A schema states under one key either that it is required itself or which of its properties are, and
it can do so in two places. A property is marked if it says so itself or if the enclosing object
lists its name, and one mark stands behind its definition if and only if it is marked.

## Main definitions

- `Facets.Lists`, `Facets.Declares`: the names that an object lists, and the properties it declares.
- `Context.StatedAs`: the schemas of a document, in every position.
- `Context.IsFieldOf`, `Context.WritesProperties`: how properties are written.

## Main statements

- `Schema.declares_of_read`: the properties of an object that has been read.
- `Context.StatedAs.exists_read`: what stands in any position has been read.
- `Schema.expr_bare`: the definition of a schema does not depend on its marks.
- `Context.required_of_statedAs`: the properties of every object, and how they are written.
-/

namespace RouteRules

/-! ## Names that are listed -/

/-- The names of required properties hold this key. A direct list counts; if there is none, the
nested one does. -/
inductive Facets.Lists (f : Facets) (key : String) : Prop where
  | direct {names : List Value} :
      Value.field f.direct "required" = .list names → .text key ∈ names → Lists f key
  | nested {names : List Value} :
      (∀ others, Value.field f.direct "required" ≠ .list others) →
      Value.field f.nested "required" = .list names → .text key ∈ names → Lists f key

/-- The property is the one that the facets declare with this entry. -/
structure Facets.Declares (f : Facets) (e : String × Value) (property : Schema) : Prop where
  name_eq : property.info.name = .text e.1
  /-- It says itself that it is required, or its name is listed. -/
  isRequired_iff : property.info.isRequired = true ↔
    (Facets.ofEntries e.2.entries).get "required" = .bool true ∨ f.Lists e.1
  /-- A list of names is about the parts of the property, not about the property. -/
  isRequired_of_list : ∀ names, (Facets.ofEntries e.2.entries).get "required" = .list names →
    (property.info.isRequired = true ↔ f.Lists e.1)

namespace Facets

variable {f : Facets} {key : String}

/-- A direct statement wins. -/
theorem get_of_direct {v : Value} (hkey : key ≠ "schema") (h : Value.field f.direct key = v)
    (hv : v ≠ .null) : f.get key = v := by
  unfold get find? Value.field at *
  rw [if_neg hkey]
  -- An absent facet would have been null.
  cases hdirect : f.direct.lookup key with
  | none =>
    rw [hdirect] at h
    exact absurd h.symm hv
  | some w =>
    rw [hdirect] at h
    exact h

theorem mem_requiredNames : .text key ∈ f.requiredNames ↔ f.Lists key := by
  unfold requiredNames
  constructor
  -- The model looks at the direct list first, and at the nested one only if there is none.
  · intro h
    split at h
    · rename_i hdirect
      exact .direct hdirect h
    · rename_i hnested hdirect
      exact .nested hdirect hnested h
    · cases h
  · intro h
    -- Conversely, each way of listing rules out the cases that come before it.
    cases h with
    | direct hdirect hmem =>
      rw [hdirect]
      exact hmem
    | nested hdirect hnested hmem =>
      split
      · rename_i names hnames
        exact absurd hnames (hdirect names)
      · rename_i hothers _
        cases hnested.symm.trans hothers
        exact hmem
      · rename_i hnone
        exact absurd hnested (hnone _)

/-- A flag that is stated directly hides no nested list. -/
theorem lists_of_flag {names : List Value} {b : Bool}
    (hdirect : Value.field f.direct "required" = .bool b)
    (hnested : Value.field f.nested "required" = .list names) :
    f.Lists key ↔ .text key ∈ names := by
  rw [← mem_requiredNames, requiredNames, hdirect, hnested]

end Facets

/-! ## Properties that are read -/

namespace Schema

variable {s : Settings}

/-- The properties of an object that has been read: one for each that is stated, in order. -/
theorem declares_of_read {place : Place} {entries : List (String × Value)} {info : Info}
    {properties : List Schema}
    (h : read s place (.object entries) = .ok (.object info properties)) :
    ∃ stated, (Facets.ofEntries entries).find? "properties" = some (.object stated) ∧
      List.Forall₂ (Facets.ofEntries entries).Declares stated properties := by
  obtain ⟨_, _, ⟨⟩, _, hform⟩ := form_of_read h
  cases hform with
  | object _ _ hstated hproperties =>
    refine ⟨_, hstated, ?_⟩
    rw [readProperties_eq_mapM] at hproperties
    refine (mapM_eq_ok.mp hproperties).imp fun e property hread => ?_
    obtain ⟨own, info, hown, hinfo, hform⟩ := form_of_read hread
    -- The place of a property carries the mark of the list, and its own flag is looked at first.
    have hmark : property.info.isRequired = true ↔
        (Facets.ofEntries e.2.entries).get "required" = .bool true ∨
          (Facets.ofEntries entries).Lists e.1 := by
      rw [hform.info_eq, Facets.isRequired_of_info hinfo, hown, ← Facets.mem_requiredNames]
      simp [Place.property, Value.isBlank, Scalar.isBlank, Value.entries]
    have hname : (place.property (Facets.ofEntries entries).requiredNames e.1).name ≠ .null := by
      simp [Place.property]
    refine ⟨name_of_read hread hname, hmark, fun names hnames => ?_⟩
    rw [hmark, hnames]
    simp

end Schema

/-! ## Positions -/

namespace Context

variable {c : Context}

/-- The schema is what the value states, in some position of a document. -/
inductive StatedAs (c : Context) : Value → Schema → Prop where
  /-- A schema by itself, at any place. -/
  | alone {place : Place} {v : Value} {schema : Schema} :
      Schema.read c.settings place v = .ok schema → StatedAs c v schema
  | parameter {operation : List (String × Value)} {route : Route} {v : Value} {p : Parameter} :
      Route.read c.settings (.object operation) = .ok route →
      (v, p) ∈ (Route.stated operation).zip route.parameters → StatedAs c v p.schema
  | body {operation media : List (String × Value)} {route : Route} {schema : Schema} :
      Route.read c.settings (.object operation) = .ok route → route.body = some schema →
      Route.media c.settings (Value.field operation "requestBody") = .ok (.object media) →
      StatedAs c (.object media) schema
  | component {r : Reference} {name : String} {v : Value} {schema : Schema} :
      c.settings.componentName r.path = .ok name → c.catalogue.find? (.text name) = some v →
      c.Names r schema → StatedAs c v schema
  | items {entries : List (String × Value)} {info : Info} {v : Value} {items : Schema} :
      StatedAs c (.object entries) (.array info items) →
      (Facets.ofEntries entries).find? "items" = some v → StatedAs c v items
  | property {entries stated : List (String × Value)} {info : Info} {properties : List Schema}
      {e : String × Value} {property : Schema} :
      StatedAs c (.object entries) (.object info properties) →
      (Facets.ofEntries entries).find? "properties" = some (.object stated) →
      (e, property) ∈ stated.zip properties → StatedAs c e.2 property

/-- The entries are the same, but for those that a body is given beside its media. -/
def SameFacets (entries others : List (String × Value)) : Prop :=
  ∀ key, key ∉ ["operationId", "description"] → others.lookup key = entries.lookup key

namespace SameFacets

variable {entries others : List (String × Value)} (h : SameFacets entries others)

include h

theorem nested_eq : (Facets.ofEntries others).nested = (Facets.ofEntries entries).nested := by
  simp only [Facets.ofEntries, Value.field, h "schema" (by simp)]

theorem find?_eq {key : String} (hkey : key ∉ ["operationId", "description"]) :
    (Facets.ofEntries others).find? key = (Facets.ofEntries entries).find? key := by
  have hdirect : (Facets.ofEntries others).direct.lookup key =
      (Facets.ofEntries entries).direct.lookup key := h key hkey
  simp only [Facets.find?, hdirect, h.nested_eq]

theorem get_eq {key : String} (hkey : key ∉ ["operationId", "description"]) :
    (Facets.ofEntries others).get key = (Facets.ofEntries entries).get key := by
  rw [Facets.get, Facets.get, h.find?_eq hkey]

theorem lists_iff {key : String} :
    (Facets.ofEntries others).Lists key ↔ (Facets.ofEntries entries).Lists key := by
  have hdirect : Value.field (Facets.ofEntries others).direct "required" =
      Value.field (Facets.ofEntries entries).direct "required" :=
    congrArg (·.getD .null) (h "required" (by simp))
  simp only [← Facets.mem_requiredNames, Facets.requiredNames, hdirect, h.nested_eq]

theorem declares {e : String × Value} {property : Schema}
    (hproperty : (Facets.ofEntries others).Declares e property) :
    (Facets.ofEntries entries).Declares e property where
  name_eq := hproperty.name_eq
  isRequired_iff := by rw [hproperty.isRequired_iff, h.lists_iff]
  isRequired_of_list names hnames := by rw [hproperty.isRequired_of_list names hnames, h.lists_iff]

end SameFacets

/-- What stands in any position has been read, in the case of a body beside other entries. -/
theorem StatedAs.exists_read {v : Value} {schema : Schema} (h : c.StatedAs v schema) :
    ∃ entries others place, v = .object entries ∧ SameFacets entries others ∧
      Schema.read c.settings place (.object others) = .ok schema := by
  -- What is read as it stands is an object.
  have hself : ∀ {place v schema}, Schema.read c.settings place v = .ok schema →
      ∃ entries others place, v = .object entries ∧ SameFacets entries others ∧
        Schema.read c.settings place (.object others) = .ok schema := by
    intro place v schema hread
    obtain ⟨entries, _, rfl, _⟩ := Schema.form_of_read hread
    exact ⟨entries, entries, place, rfl, fun _ _ => rfl, hread⟩
  -- On how the position is reached. Parts are read where they stand in what was read of the whole.
  induction h with
  | alone hread => exact hself hread
  | parameter hread hp =>
    have hparameters := Route.forall₂_readParameters (Route.read_eq_ok hread).1
    obtain ⟨position, hp⟩ := (List.forall₂_iff_zip.mp hparameters).2 hp
    rw [Route.readParameter_eq] at hp
    obtain ⟨schema, hschema, rfl⟩ := map_eq_ok.mp hp
    exact hself hschema
  -- A body is read from its media together with entries of its own, so the entries are the same up
  -- to those.
  | @body operation media route schema hread hbody hmedia =>
    obtain ⟨_, hsame, hschema⟩ := Route.exists_body hread (Route.statesBody_iff.mpr hmedia)
    cases hbody.symm.trans hsame
    rw [Route.read_bodyOf] at hschema
    exact ⟨media, _, _, rfl, fun key => Route.lookup_bodyEntries, hschema⟩
  | component hname hfind hnames =>
    obtain ⟨name, v, hname', hfind', hread⟩ := hnames
    cases hname.symm.trans hname'
    cases hfind.symm.trans hfind'
    exact hself hread
  -- Items and properties are facets of an object, and these do not depend on the entries of a body.
  | items _ hitems ih =>
    obtain ⟨_, others, place, ⟨⟩, hsame, hread⟩ := ih
    obtain ⟨_, _, ⟨⟩, _, hform⟩ := Schema.form_of_read hread
    cases hform with
    | array _ _ hfind _ hitem =>
      rw [hsame.find?_eq (by simp)] at hfind
      cases hitems.symm.trans hfind
      exact hself hitem
  | property _ hstated hmem ih =>
    obtain ⟨_, others, place, ⟨⟩, hsame, hread⟩ := ih
    obtain ⟨_, _, ⟨⟩, _, hform⟩ := Schema.form_of_read hread
    cases hform with
    | object _ _ hfind hproperties =>
      rw [hsame.find?_eq (by simp)] at hfind
      cases hstated.symm.trans hfind
      rw [Schema.readProperties_eq_mapM] at hproperties
      exact hself ((List.forall₂_iff_zip.mp (mapM_eq_ok.mp hproperties)).2 hmem)

end Context

/-! ## Definitions and modifiers -/

namespace Expr

def modifiers : Expr → List Rule
  | chain _ _ modifiers => modifiers
  | verbatim _ modifiers => modifiers
  | array _ modifiers => modifiers
  | object _ modifiers => modifiers

/-- The definition alone, without its modifiers. -/
def bare : Expr → Expr
  | chain base constraints _ => chain base constraints []
  | verbatim code _ => verbatim code []
  | array items _ => array items []
  | object fields _ => object fields []

/-- The modifiers stand behind the definition. -/
theorem render_eq_bare (validator : String) (e : Expr) :
    e.render validator = e.bare.render validator ++ Rule.chainText e.modifiers := by
  have hnone : Rule.chainText [] = "" := rfl
  cases e <;> simp only [bare, render, modifiers, hnone, String.append_empty]

end Expr

namespace Info

/-- With no modifiers left. -/
def bare (info : Info) : Info :=
  { info with required := .null, description := .null, append := .null }

/-- The modifiers behind the mark of a required field. -/
def laterModifiers (info : Info) (withAppend : Bool) : List Rule :=
  (if info.description.isNull then [] else [.description info.description.display])
    ++ (if withAppend && !info.append.isBlank then [.append info.append.display] else [])

theorem modifiers_eq (info : Info) (withAppend : Bool) : info.modifiers withAppend =
    (if info.isRequired then [.required] else []) ++ info.laterModifiers withAppend :=
  List.append_assoc ..

/-- There is one mark only. -/
theorem required_not_mem_laterModifiers (info : Info) (withAppend : Bool) :
    Rule.required ∉ info.laterModifiers withAppend := by
  unfold laterModifiers
  split <;> split <;> simp

theorem modifiers_bare (info : Info) (withAppend : Bool) : info.bare.modifiers withAppend = [] := by
  simp [modifiers, bare, isRequired, Value.isNull, Value.isBlank, Scalar.isBlank]

/-- What is given here are modifiers, and nothing else depends on them. -/
def TakesModifiers (definition : List Rule → Expr) : Prop :=
  ∀ rules, (definition rules).modifiers = rules ∧ (definition rules).bare = definition []

/-- An expression has the modifiers of its schema, and the rest of it does not depend on them. -/
theorem expr_bare {info : Info} {definition : Except Fault (List Rule → Expr)}
    (hdefinition : ∀ d, definition = .ok d → TakesModifiers d) {e : Expr}
    (h : info.expr definition = .ok e) : e.modifiers = info.modifiers info.replacement.isNull ∧
      info.bare.expr definition = .ok e.bare := by
  -- Without a replacement the modifiers are put behind the definition, and with one behind its
  -- text.
  by_cases hnull : info.replacement = .null
  · have hbare : info.bare.replacement = .null := hnull
    rw [expr_of_null hnull] at h
    obtain ⟨d, hd, rfl⟩ := map_eq_ok.mp h
    obtain ⟨hmodifiers, hd'⟩ := hdefinition d hd (info.modifiers true)
    rw [hmodifiers, hd', expr_of_null hbare, hd, modifiers_bare, Value.isNull_iff.mpr hnull]
    exact ⟨rfl, rfl⟩
  · obtain ⟨_, _⟩ | ⟨code, hcode⟩ := expr_cases h
    · contradiction
    · have hbare : info.bare.replacement = .text code := hcode
      rw [expr_of_text hcode] at h
      cases h
      rw [expr_of_text hbare, modifiers_bare, hcode]
      exact ⟨rfl, rfl⟩

end Info

namespace Schema

/-- With no modifiers left. Those of its parts stay. -/
def bare (schema : Schema) : Schema := schema.mapInfo Info.bare

theorem expr_bare (expand : Expansion) {schema : Schema} (href : schema.isReference = false)
    {e : Expr} (h : schema.expr expand = .ok e) :
    e.modifiers = schema.info.modifiers schema.info.replacement.isNull ∧
      schema.bare.expr expand = .ok e.bare := by
  -- What may fail does so before the modifiers are added.
  have hmap : ∀ {α : Type} {x : Except Fault α} {f : α → List Rule → Expr},
      (∀ a, Info.TakesModifiers (f a)) → ∀ d, f <$> x = .ok d → Info.TakesModifiers d := by
    intro α x f hf d hd
    obtain ⟨a, _, rfl⟩ := map_eq_ok.mp hd
    exact hf a
  -- There is no definition of what cannot be compiled.
  have hnone : ∀ {fault : Fault} d, (Except.error fault : Except Fault (List Rule → Expr)) = .ok d →
      Info.TakesModifiers d := by
    intro fault d hd
    cases hd
  -- Only the definitions differ from kind to kind.
  cases schema with
  | reference info target => cases href
  | string info formats pattern members | number info whole minimum maximum | array info items =>
    exact Info.expr_bare (hmap fun _ _ => ⟨rfl, rfl⟩) h
  | object info properties =>
    cases properties with
    | nil => exact Info.expr_bare hnone h
    | cons first rest => exact Info.expr_bare (hmap fun _ _ => ⟨rfl, rfl⟩) h
  | bareArray info | bareObject info | unsupported info kind => exact Info.expr_bare hnone h

end Schema

/-! ## Properties that are written -/

namespace Context

variable {c : Context}

/-- The field is that of a property: its definition, the mark of a required field if it is marked,
and then other modifiers. -/
structure IsFieldOf (c : Context) (property : Schema) (field : Field) : Prop where
  key_eq : FieldName.key property.info.name = .ok field.1
  /-- The definition is what the property is without any modifiers. -/
  bare_eq : c.expr property.bare = .ok field.2.bare
  later : ∃ later, Rule.required ∉ later ∧
    field.2.modifiers = (if property.info.isRequired then [.required] else []) ++ later ∧
    field.2.render c.validator = field.2.bare.render c.validator ++
      (if property.info.isRequired then ".required()" else "") ++ Rule.chainText later

/-- The fields are those of these properties in order: one for each, but for references, which stand
for the fields of a component. -/
def WritesProperties (c : Context) (properties : List Schema) (fields : List Field) : Prop :=
  ∃ parts, fields = parts.flatten ∧
    List.Forall₂ (fun property part => c.fields property = .ok part ∧
      (property.isReference = false → ∃ field, part = [field] ∧ c.IsFieldOf property field))
      properties parts

/-- A property that is no reference has one field. -/
theorem exists_isFieldOf {property : Schema} (href : property.isReference = false)
    {part : List Field} (h : c.fields property = .ok part) :
    ∃ field, part = [field] ∧ c.IsFieldOf property field := by
  rw [fields, Schema.fields_of_not_reference c.expand href] at h
  obtain ⟨e, he, h⟩ := bind_eq_ok.mp h
  obtain ⟨key, hkey, h⟩ := bind_eq_ok.mp h
  cases h
  obtain ⟨hmodifiers, hbare⟩ := Schema.expr_bare c.expand href he
  rw [Info.modifiers_eq] at hmodifiers
  refine ⟨(key, e), rfl, hkey, hbare, _, Info.required_not_mem_laterModifiers _ _, hmodifiers, ?_⟩
  -- The chain of modifiers begins with the mark, if there is one.
  have hmark : Rule.chainText [Rule.required] = ".required()" := by decide +kernel
  have hnone : Rule.chainText [] = "" := rfl
  rw [Expr.render_eq_bare, hmodifiers, Rule.chainText_append, ← String.append_assoc]
  split
  · rw [hmark]
  · rw [hnone]

theorem writesProperties_of_fieldsOfAll {properties : List Schema} {fields : List Field}
    (h : Schema.fieldsOfAll c.expand properties = .ok fields) :
    c.WritesProperties properties fields := by
  rw [Schema.fieldsOfAll_eq_mapM] at h
  obtain ⟨parts, hparts, rfl⟩ := map_eq_ok.mp h
  exact ⟨parts, rfl, (mapM_eq_ok.mp hparts).imp fun property part hpart =>
    ⟨hpart, fun href => exists_isFieldOf href hpart⟩⟩

section Object

variable {info : Info} {properties : List Schema} {fields : List Field}

/-- An object as a value is written around its properties. -/
theorem writesProperties_of_expr (hnull : info.replacement = .null) {e : Expr}
    (h : c.expr (.object info properties) = .ok e) :
    ∃ fields, e = .object fields (info.modifiers true) ∧ c.WritesProperties properties fields := by
  obtain ⟨_, fields, hfields, rfl⟩ := Schema.expr_object_cases hnull h
  exact ⟨fields, rfl, writesProperties_of_fieldsOfAll hfields⟩

/-- As a field it stands under its own key. -/
theorem writesProperties_of_fields (hnull : info.replacement = .null) {group : List Field}
    (h : c.fields (.object info properties) = .ok group) :
    ∃ key fields, group = [(key, .object fields (info.modifiers true))] ∧
      c.WritesProperties properties fields := by
  obtain ⟨e, he, h⟩ := bind_eq_ok.mp h
  obtain ⟨key, _, h⟩ := bind_eq_ok.mp h
  obtain ⟨fields, rfl, hwrites⟩ := writesProperties_of_expr hnull he
  cases h
  exact ⟨key, fields, rfl, hwrites⟩

/-- As a group of its own it has the fields of its properties. -/
theorem writesProperties_of_memberFields (hnull : info.replacement = .null)
    (h : c.memberFields (.object info properties) = .ok fields) :
    c.WritesProperties properties fields := by
  cases properties with
  | nil => simp [memberFields, Schema.memberFields, hnull, Value.isNull] at h
  | cons first rest =>
    rw [memberFields, Schema.memberFields_object c.expand hnull (List.cons_ne_nil _ _)] at h
    exact writesProperties_of_fieldsOfAll h

/-- So has a reference to it. -/
theorem writesProperties_of_expand {r : Reference} (hnames : c.Names r (.object info properties))
    (h : c.expand r = .ok fields) : c.WritesProperties properties fields := by
  rw [expand_eq] at h
  obtain ⟨content, hcontent, h⟩ := bind_eq_ok.mp h
  obtain ⟨component, hnames', hcomponent⟩ := content_eq_ok.mp hcontent
  -- The reference names one component, so what is expanded is this object.
  cases (resolve_eq_ok.mpr hnames).symm.trans (resolve_eq_ok.mpr hnames')
  cases properties with
  | nil => cases hcomponent
  | cons first rest =>
    cases hcomponent
    exact writesProperties_of_fieldsOfAll h

end Object

/-! ## Objects in every position -/

namespace StatedAs

variable {entries : List (String × Value)}

/-- An object is required if it says so. -/
theorem isRequired {schema : Schema} (h : c.StatedAs (.object entries) schema)
    (hrequired : (Facets.ofEntries entries).get "required" = .bool true) :
    schema.info.isRequired = true := by
  obtain ⟨_, others, place, ⟨⟩, hsame, hread⟩ := h.exists_read
  obtain ⟨_, info, ⟨⟩, hinfo, hform⟩ := Schema.form_of_read hread
  rw [hform.info_eq, Facets.isRequired_of_info hinfo, hsame.get_eq (by simp)]
  exact .inl hrequired

/-- It has one property for each that it states. -/
theorem exists_declares {info : Info} {properties : List Schema}
    (h : c.StatedAs (.object entries) (.object info properties)) :
    ∃ stated, (Facets.ofEntries entries).find? "properties" = some (.object stated) ∧
      List.Forall₂ (Facets.ofEntries entries).Declares stated properties := by
  obtain ⟨_, others, place, ⟨⟩, hsame, hread⟩ := h.exists_read
  obtain ⟨stated, hstated, hall⟩ := Schema.declares_of_read hread
  rw [hsame.find?_eq (by simp)] at hstated
  exact ⟨stated, hstated, hall.imp fun e property => hsame.declares⟩

end StatedAs

/-- An object in any position has one property for each that it states, in order and under its key,
and those are marked that say so or whose names it lists. If it says that it is required itself, it
is marked, and a nested list is about its properties all the same. Where the object is compiled, as
a value, as a field, as a group of its own or for a reference, each of its properties is written
with one mark behind its definition if it is marked, and with none otherwise. -/
theorem required_of_statedAs (c : Context) (entries : List (String × Value)) (info : Info)
    (properties : List Schema) (h : c.StatedAs (.object entries) (.object info properties)) :
    (∃ stated, (Facets.ofEntries entries).find? "properties" = some (.object stated) ∧
      List.Forall₂ (Facets.ofEntries entries).Declares stated properties) ∧
    ((Facets.ofEntries entries).get "required" = .bool true → info.isRequired = true) ∧
    (∀ names, Value.field entries "required" = .bool true →
      Value.field (Facets.ofEntries entries).nested "required" = .list names →
      info.isRequired = true ∧
        ∀ key, (Facets.ofEntries entries).Lists key ↔ .text key ∈ names) ∧
    (∀ e, info.replacement = .null → c.expr (.object info properties) = .ok e →
      ∃ fields, e = .object fields (info.modifiers true) ∧ c.WritesProperties properties fields) ∧
    (∀ group, info.replacement = .null → c.fields (.object info properties) = .ok group →
      ∃ key fields, group = [(key, .object fields (info.modifiers true))] ∧
        c.WritesProperties properties fields) ∧
    (∀ fields, info.replacement = .null → c.memberFields (.object info properties) = .ok fields →
      c.WritesProperties properties fields) ∧
    ∀ r fields, c.Names r (.object info properties) → c.expand r = .ok fields →
      c.WritesProperties properties fields := by
  refine ⟨h.exists_declares, fun hown => h.isRequired hown, ?flag,
    fun e hnull => writesProperties_of_expr hnull,
    fun group hnull => writesProperties_of_fields hnull,
    fun fields hnull => writesProperties_of_memberFields hnull,
    fun r fields hnames => writesProperties_of_expand hnames⟩
  case flag =>
    intro names hdirect hnested
    have hown : (Facets.ofEntries entries).get "required" = .bool true :=
      Facets.get_of_direct (by simp) hdirect nofun
    exact ⟨h.isRequired hown, fun key => Facets.lists_of_flag hdirect hnested⟩

/-- A boat has to be given, and of its parts the sail and the crew. The crew lists what it needs
itself; that does not mark it. -/
def boat : List (String × Value) :=
  [("name", .text "boat"), ("in", .text "query"), ("required", .bool true),
   ("schema", .object
     [("required", .list [.text "sail"]),
      ("properties", .object
        [("sail", .object [("type", .text "string"), ("description", .text "White.")]),
         ("crew", .object
           [("required", .list [.text "age"]),
            ("properties", .object [("age", .object [("type", .text "integer")])])])])])]

theorem required_of_statedAs_boat : ∃ info properties,
    StatedAs ⟨{}, ∅⟩ (.object boat) (.object info properties) ∧ info.isRequired = true ∧
      (∃ stated, (Facets.ofEntries boat).find? "properties" = some (.object stated) ∧
        List.Forall₂ (Facets.ofEntries boat).Declares stated properties) ∧
      ∃ fields, Context.expr ⟨{}, ∅⟩ (.object info properties) =
          .ok (.object fields (info.modifiers true)) ∧
        WritesProperties ⟨{}, ∅⟩ properties fields := by
  -- The object is read and compiled here; the theorem is about any that has been.
  obtain ⟨schema, hread, hobject, hnull, e, he⟩ : ∃ schema,
      Schema.read {} (Route.parameterPlace 0) (.object boat) = .ok schema ∧
        schema.isObject = true ∧ schema.info.replacement = .null ∧
          ∃ e, Context.expr ⟨{}, ∅⟩ schema = .ok e := by
    decide +kernel
  cases schema with
  | object info properties =>
    have hstated : StatedAs ⟨{}, ∅⟩ (.object boat) (.object info properties) := .alone hread
    obtain ⟨hdeclares, hown, _, hvalue, _⟩ := required_of_statedAs _ boat info properties hstated
    obtain ⟨fields, rfl, hwrites⟩ := hvalue e hnull he
    exact ⟨info, properties, hstated, hown (by decide +kernel), hdeclares, fields, he, hwrites⟩
  | _ => cases hobject

end Context

end RouteRules
