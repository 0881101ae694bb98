import Mathlib.Logic.Relation
import RouteRules.Proofs.Expansion
import RouteRules.Proofs.Expr.Cutting

/-!
# Verbatim texts

Some facets of a schema are spliced into the code as they are: names, patterns, descriptions,
members, limits, appended texts and replacements. If all of them are closed, so is the code.

## Main definitions

- `Schema.texts`, `Content.texts`: the texts that a schema and a component are spliced in with.
- `Context.ClosedTexts`: the texts of a schema, and of all components that it leads to, are closed.
- `Schema.GivesField`, `Schema.GivesObject`: a field that a schema gives under its own key, and the
  fields that properties give.
- `Schema.objects`: the properties of each object in a schema.

## Main statements

- `ExpandsField.closed`: what a schema becomes has closed texts too.
- `Schema.isClosed_expr`: the code of a schema without references is closed.
- `Schema.forall₂_wrappers`: the objects in this code are those of the schema.
-/

namespace RouteRules

/-! ## Texts -/

namespace Value

/-- The value as a text that is spliced in, if it is a text. -/
def ownText : Value → List String
  | text s => [s]
  | _ => []

/-- The text that the value is spliced in as, unless it is null. -/
def shownText (v : Value) : List String := if v.isNull then [] else [v.display]

/-- The text that the value is spliced in as, unless it is blank. -/
def filledText (v : Value) : List String := if v.isBlank then [] else [v.display]

/-- The text that the value is written as where it is a limit, if it is one. -/
def limitText (v : Value) : List String := if v.isNull then [] else v.literal.toOption.toList

/-- The text that the value is written as where it is a member of an allow-list. -/
def memberTexts (v : Value) : List String := (Rule.memberText v).toOption.toList

end Value

/-- The texts of the common part of a schema. -/
def Info.texts (info : Info) : List String :=
  info.name.ownText ++ info.description.shownText ++ info.append.filledText
    ++ info.replacement.ownText

namespace Schema

mutual

/-- The texts that a schema and its parts are spliced in with. -/
def texts : Schema → List String
  | .string info _ pattern members =>
    info.texts ++ pattern.shownText ++ (members.getD []).flatMap Value.memberTexts
  | .number info _ minimum maximum => info.texts ++ minimum.limitText ++ maximum.limitText
  | .array info items => info.texts ++ items.texts
  | .bareArray info => info.texts
  | .object info properties => info.texts ++ textsOfAll properties
  | .bareObject info => info.texts
  | .reference info _ => info.texts
  | .unsupported info _ => info.texts

/-- The texts that schemas and their parts are spliced in with. -/
def textsOfAll : List Schema → List String
  | [] => []
  | schema :: rest => schema.texts ++ textsOfAll rest

end

theorem mem_textsOfAll {schemas : List Schema} {t : String} :
    t ∈ textsOfAll schemas ↔ ∃ schema ∈ schemas, t ∈ schema.texts := by
  induction schemas with
  | nil => simp [textsOfAll]
  | cons schema rest ih =>
    simp only [textsOfAll, List.mem_append, ih, List.mem_cons, exists_eq_or_imp]

theorem mem_referencesOfAll {schemas : List Schema} {r : Reference} :
    r ∈ referencesOfAll schemas ↔ ∃ schema ∈ schemas, r ∈ schema.references := by
  induction schemas with
  | nil => simp [referencesOfAll]
  | cons schema rest ih =>
    simp only [referencesOfAll, List.mem_append, ih, List.mem_cons, exists_eq_or_imp]

theorem info_texts_subset {schema : Schema} {t : String} (h : t ∈ schema.info.texts) :
    t ∈ schema.texts := by
  cases schema <;> simp [info, texts] at h ⊢ <;> simp [h]

end Schema

/-- The texts of the properties of a component. -/
def Content.texts : Content → List String
  | .alias _ => []
  | .properties first rest => Schema.textsOfAll (first :: rest)

/-! ## Components that a schema leads to -/

namespace Context

/-- The component that the first reference names refers to the other one. -/
def Refers (c : Context) (r target : Reference) : Prop :=
  ∃ content, c.content r = .ok content ∧ target ∈ content.references

/-- The component that the first reference names leads to the other one. -/
abbrev LeadsTo (c : Context) : Reference → Reference → Prop := Relation.ReflTransGen c.Refers

/-- The texts of every component that the reference leads to are closed. -/
def ClosedBelow (c : Context) (r : Reference) : Prop :=
  ∀ other content, c.LeadsTo r other → c.content other = .ok content →
    ∀ t ∈ content.texts, Closed t

/-- The texts of the schema are closed, and so are those of every component that it leads to. -/
def ClosedTexts (c : Context) (schema : Schema) : Prop :=
  (∀ t ∈ schema.texts, Closed t) ∧ ∀ r ∈ schema.references, c.ClosedBelow r

theorem ClosedBelow.step {c : Context} {r target : Reference} (h : c.ClosedBelow r)
    (hstep : c.Refers r target) : c.ClosedBelow target :=
  fun other content hleads => h other content (hleads.head hstep)

end Context

/-! ## Catalogues of closed texts -/

namespace Schema

theorem textsOfAll_unplacedAll {schemas : List Schema}
    (h : ∀ schema ∈ schemas, schema.unplaced.texts = schema.texts) :
    textsOfAll (unplacedAll schemas) = textsOfAll schemas := by
  induction schemas with
  | nil => rfl
  | cons schema rest ih =>
    rw [unplacedAll, textsOfAll, textsOfAll, h schema (List.mem_cons_self ..),
      ih fun other hother => h other (List.mem_cons_of_mem _ hother)]

/-- A path is not spliced in. -/
theorem texts_unplaced (schema : Schema) : schema.unplaced.texts = schema.texts := by
  induction schema with
  | array info items ih => exact congrArg (info.texts ++ ·) ih
  | object info properties ih => exact congrArg (info.texts ++ ·) (textsOfAll_unplacedAll ih)
  | _ => rfl

theorem texts_of_content {schema : Schema} {content : Content}
    (h : schema.content? = some content) : ∀ t ∈ content.texts, t ∈ schema.texts := by
  intro t ht
  cases content with
  | «alias» target => cases ht
  | properties first rest =>
    obtain ⟨info, rfl⟩ := content?_eq_properties h
    exact List.mem_append_right _ ht

end Schema

theorem Content.texts_unplaced (content : Content) : content.unplaced.texts = content.texts := by
  cases content with
  | «alias» target => rfl
  | properties first rest =>
    show Schema.textsOfAll (Schema.unplacedAll (first :: rest)) = Schema.textsOfAll (first :: rest)
    exact Schema.textsOfAll_unplacedAll fun schema _ => schema.texts_unplaced

/-- If all components have closed texts, nothing that a reference leads to can be otherwise. It is
enough to read every component once. -/
theorem Context.closedBelow_of_entries {c : Context}
    (h : ∀ e ∈ c.catalogue.entries, ∀ schema,
      Schema.read c.settings { path := .null } e.2 = .ok schema → ∀ t ∈ schema.texts, Closed t)
    (r : Reference) : c.ClosedBelow r := by
  intro other content _ hcontent t ht
  obtain ⟨component, ⟨name, v, _, hfind, hread⟩, hcomponent⟩ := content_eq_ok.mp hcontent
  have hagree := Schema.unplacedContent?_read c.settings
    { path := other.path, name := other.operationId } { path := .null } v
  rw [hread, map_ok] at hagree
  obtain ⟨schema, hschema, hsame⟩ := map_eq_ok.mp hagree.symm
  have hsame : schema.content?.map Content.unplaced = component.content?.map Content.unplaced :=
    hsame
  rw [hcomponent, Option.map_some] at hsame
  obtain ⟨found, hfound, hunplaced⟩ := Option.map_eq_some_iff.mp hsame
  apply h _ (Table.mem_of_lookup hfind) schema hschema
  apply Schema.texts_of_content hfound
  rw [← found.texts_unplaced, hunplaced, content.texts_unplaced]
  exact ht

/-! ## The texts of expansions -/

mutual

theorem ExpandsField.closed {c : Context} : ∀ {schema : Schema} {ms : List Schema},
    ExpandsField c schema ms → c.ClosedTexts schema → ∀ m ∈ ms, ∀ t ∈ m.texts, Closed t
  | _, _, .reference htarget, h => htarget.closed (h.2 _ (List.mem_singleton.mpr rfl))
  | _, _, .other _ hvalue, h => by
    intro m hm
    rw [List.mem_singleton.mp hm]
    exact hvalue.closed h

theorem ExpandsAll.closed {c : Context} : ∀ {schemas ms : List Schema},
    ExpandsAll c schemas ms → (∀ schema ∈ schemas, c.ClosedTexts schema) →
      ∀ m ∈ ms, ∀ t ∈ m.texts, Closed t
  | _, _, .nil, _ => by
    intro m hm
    cases hm
  | _, _, .cons hfield hrest, h => by
    intro m hm
    rcases List.mem_append.mp hm with hm | hm
    · exact hfield.closed (h _ (List.mem_cons_self ..)) m hm
    · exact hrest.closed (fun schema hmem => h schema (List.mem_cons_of_mem _ hmem)) m hm

theorem ExpandsReference.closed {c : Context} : ∀ {r : Reference} {ms : List Schema},
    ExpandsReference c r ms → c.ClosedBelow r → ∀ m ∈ ms, ∀ t ∈ m.texts, Closed t
  | _, _, .alias hcontent htarget, h =>
    htarget.closed (h.step ⟨_, hcontent, List.mem_singleton.mpr rfl⟩)
  | r, _, .properties hcontent hall, h => by
    apply hall.closed
    intro schema hmem
    constructor
    · intro t ht
      exact h r _ .refl hcontent t (Schema.mem_textsOfAll.mpr ⟨schema, hmem, ht⟩)
    · intro target htarget
      exact h.step ⟨_, hcontent, Schema.mem_referencesOfAll.mpr ⟨schema, hmem, htarget⟩⟩

/-- What a schema becomes has closed texts, if the schema has and the components that it leads to
have. -/
theorem ExpandsValue.closed {c : Context} : ∀ {schema m : Schema},
    ExpandsValue c schema m → c.ClosedTexts schema → ∀ t ∈ m.texts, Closed t
  | _, _, .reference htarget, h => by
    intro t ht
    -- The object around the properties has no texts of its own.
    have ht : t ∈ Schema.textsOfAll _ := ht
    -- So the text is one of a property of the target, which the schema leads to.
    obtain ⟨m, hm, ht⟩ := Schema.mem_textsOfAll.mp ht
    exact htarget.closed (h.2 _ (List.mem_singleton.mpr rfl)) m hm t ht
  | _, _, .replaced _ _, h => h.1
  | _, _, .leaf _, h => h.1
  | .array info items, _, .array hnull hitems, h => by
    -- Without a replacement the items are visited, so their references are those of the array.
    have hreferences : (Schema.array info items).references = items.references := if_pos hnull
    intro t ht
    rcases List.mem_append.mp ht with ht | ht
    · exact h.1 t (List.mem_append_left _ ht)
    · refine hitems.closed ⟨fun t ht => h.1 t (List.mem_append_right _ ht), ?_⟩ t ht
      exact hreferences ▸ h.2
  | .object info properties, _, .object hnull hall, h => by
    have hreferences : (Schema.object info properties).references =
        Schema.referencesOfAll properties := if_pos hnull
    intro t ht
    rcases List.mem_append.mp ht with ht | ht
    · exact h.1 t (List.mem_append_left _ ht)
    · obtain ⟨m, hm, ht⟩ := Schema.mem_textsOfAll.mp ht
      refine hall.closed (fun schema hmem => ⟨fun t ht => ?_, fun r hr => ?_⟩) m hm t ht
      · exact h.1 t (List.mem_append_right _ (Schema.mem_textsOfAll.mpr ⟨schema, hmem, ht⟩))
      · exact h.2 r (hreferences ▸ Schema.mem_referencesOfAll.mpr ⟨schema, hmem, hr⟩)

end

/-! ## The code of closed texts is closed -/

theorem FieldName.closed_key {name : Value} {key : String} (h : FieldName.key name = .ok key)
    (htext : ∀ t ∈ name.ownText, Closed t) : Closed key := by
  have hquote : Closed "'" := by decide +kernel
  obtain ⟨s, hs, rfl⟩ := map_eq_ok.mp h
  have hclosed : Closed s := by
    unfold ofValue at hs
    split at hs
    · cases hs
      decide +kernel
    · split at hs
      · cases hs
        exact htext s (List.mem_singleton.mpr rfl)
      · cases hs
  -- Quoted or bare, the name itself is the only text that is not our own.
  unfold quote
  split
  · exact hclosed
  · exact (hquote.append hclosed).append hquote

theorem closed_memberText {vs : List Value} {texts : List String}
    (h : vs.mapM Rule.memberText = .ok texts)
    (hmembers : ∀ t ∈ vs.flatMap Value.memberTexts, Closed t) : ∀ t ∈ texts, Closed t := by
  intro t ht
  obtain ⟨v, hv, htext⟩ := exists_of_mem_right (mapM_eq_ok.mp h) ht
  refine hmembers t (List.mem_flatMap.mpr ⟨v, hv, ?_⟩)
  rw [Value.memberTexts, htext]
  exact List.mem_singleton.mpr rfl

theorem closed_stringConstraints {formats : List Value} {pattern : Value}
    {members : Option (List Value)} {rules : List Rule}
    (h : stringConstraints formats pattern members = .ok rules)
    (hpattern : ∀ t ∈ pattern.shownText, Closed t)
    (hmembers : ∀ t ∈ (members.getD []).flatMap Value.memberTexts, Closed t) :
    ∀ r ∈ rules, ∀ t ∈ r.texts, Closed t := by
  -- Formats and the pattern are the same with and without an allow-list.
  have hothers : ∀ r ∈ (TextFormat.select formats).toList.map Rule.format ++
      (if pattern.isNull then [] else [Rule.pattern pattern.display]), ∀ t ∈ r.texts, Closed t := by
    intro r hr
    rcases List.mem_append.mp hr with hr | hr
    · obtain ⟨format, _, rfl⟩ := List.mem_map.mp hr
      intro t ht
      cases ht
    · unfold Value.shownText at hpattern
      split at hr
      · cases hr
      · rename_i hnull
        rw [if_neg hnull] at hpattern
        rw [List.mem_singleton.mp hr]
        exact hpattern
  cases members with
  | none =>
    cases h
    rw [List.append_nil]
    exact hothers
  | some vs =>
    obtain ⟨texts, htexts, h⟩ := bind_eq_ok.mp h
    cases h
    intro r hr
    rcases List.mem_append.mp hr with hr | hr
    · exact hothers r hr
    · rw [List.mem_singleton.mp hr]
      exact closed_memberText htexts hmembers

theorem closed_limitRule {rule : String → Rule} (hrule : ∀ limit, (rule limit).texts = [limit])
    {limit : Value} {rules : List Rule} (h : limitRule rule limit = .ok rules)
    (hlimit : ∀ t ∈ limit.limitText, Closed t) : ∀ r ∈ rules, ∀ t ∈ r.texts, Closed t := by
  -- The cases of the rule and of the texts it shows are the same.
  unfold limitRule at h
  unfold Value.limitText at hlimit
  split at h
  · cases h
    intro r hr
    cases hr
  · rename_i hnull
    obtain ⟨text, htext, rfl⟩ := map_eq_ok.mp h
    rw [if_neg hnull, htext] at hlimit
    intro r hr
    rw [List.mem_singleton.mp hr, hrule]
    exact hlimit

theorem closed_numberConstraints {whole : Bool} {minimum maximum : Value} {rules : List Rule}
    (h : numberConstraints whole minimum maximum = .ok rules)
    (hminimum : ∀ t ∈ minimum.limitText, Closed t)
    (hmaximum : ∀ t ∈ maximum.limitText, Closed t) : ∀ r ∈ rules, ∀ t ∈ r.texts, Closed t := by
  obtain ⟨lower, hlower, h⟩ := bind_eq_ok.mp h
  obtain ⟨upper, hupper, h⟩ := bind_eq_ok.mp h
  cases h
  intro r hr
  rcases List.mem_append.mp hr with hr | hr
  · rcases List.mem_append.mp hr with hr | hr
    · intro t ht
      cases whole
      · cases hr
      · rw [List.mem_singleton.mp hr] at ht
        cases ht
    · exact closed_limitRule (fun limit => rfl) hlower hminimum r hr
  · exact closed_limitRule (fun limit => rfl) hupper hmaximum r hr

namespace Info

variable {info : Info}

theorem closed_modifiers (h : ∀ t ∈ info.texts, Closed t) (withAppend : Bool) :
    ∀ r ∈ info.modifiers withAppend, ∀ t ∈ r.texts, Closed t := by
  intro r hr t ht
  apply h
  simp only [modifiers, List.mem_append] at hr
  simp only [texts, List.mem_append, Value.shownText, Value.filledText]
  -- The mark for a required field shows no text. A description shows only where it is stated, and
  -- appended code only where it is filled, so the text is among those of the common part.
  rcases hr with (hr | hr) | hr
  · split at hr
    · rw [List.mem_singleton.mp hr] at ht
      cases ht
    · cases hr
  · split at hr
    · cases hr
    · rename_i hnull
      rw [List.mem_singleton.mp hr] at ht
      rw [if_neg hnull]
      exact .inl (.inl (.inr ht))
  · split at hr
    · rename_i hfilled
      simp only [Bool.and_eq_true, Bool.not_eq_true'] at hfilled
      rw [List.mem_singleton.mp hr] at ht
      rw [hfilled.2]
      exact .inl (.inr ht)
    · cases hr

theorem closed_expr {definition : Except Fault (List Rule → Expr)} {e : Expr}
    (he : info.expr definition = .ok e) (h : ∀ t ∈ info.texts, Closed t)
    (hdefinition : ∀ d, info.replacement = .null → definition = .ok d →
      (d (info.modifiers true)).IsClosed) : e.IsClosed := by
  -- A replacement is itself one of the texts, and stands for all that the type would add.
  rcases expr_cases he with ⟨hnull, d, hd⟩ | ⟨code, hcode⟩
  · rw [expr_of_null hnull, hd] at he
    cases he
    exact hdefinition d hnull hd
  · rw [expr_of_text hcode] at he
    cases he
    refine ⟨h code (List.mem_append_right _ ?_), closed_modifiers h false⟩
    rw [hcode]
    exact List.mem_singleton.mpr rfl

/-- There are objects in an expression only if there are in the definition. -/
theorem wrappers_expr {definition : Except Fault (List Rule → Expr)} {e : Expr}
    (he : info.expr definition = .ok e)
    (h : ∀ d, definition = .ok d → ∀ modifiers, (d modifiers).wrappers = []) : e.wrappers = [] := by
  rcases expr_cases he with ⟨hnull, d, hd⟩ | ⟨code, hcode⟩
  · rw [expr_of_null hnull, hd] at he
    cases he
    exact h d hd _
  · rw [expr_of_text hcode] at he
    cases he
    rfl

end Info

/-! ## Schemas without references -/

namespace Schema

/-- The field is the one that a schema gives under its own key. -/
def GivesField (expand : Expansion) (schema : Schema) (field : Field) : Prop :=
  FieldName.key schema.info.name = .ok field.1 ∧ schema.expr expand = .ok field.2

/-- The fields are those that the properties of an object give, at least one. -/
def GivesObject (expand : Expansion) (properties : List Schema) (fields : List Field) : Prop :=
  fields ≠ [] ∧ List.Forall₂ (GivesField expand) properties fields

variable {expand : Expansion}

theorem isReference_of_references {schema : Schema} (h : schema.references = []) :
    schema.isReference = false := by
  cases schema with
  | reference info target => cases h
  | _ => rfl

theorem references_of_referencesOfAll {schemas : List Schema} (h : referencesOfAll schemas = []) :
    ∀ schema ∈ schemas, schema.references = [] := by
  intro schema hmem
  apply List.eq_nil_iff_forall_not_mem.mpr
  intro r hr
  have hall := mem_referencesOfAll.mpr ⟨schema, hmem, hr⟩
  rw [h] at hall
  cases hall

/-- Schemas that are no references give one field each. -/
theorem forall₂_givesField {schemas : List Schema} {fields : List Field}
    (href : ∀ schema ∈ schemas, schema.isReference = false)
    (h : fieldsOfAll expand schemas = .ok fields) :
    List.Forall₂ (GivesField expand) schemas fields := by
  induction schemas generalizing fields with
  | nil =>
    cases h
    exact .nil
  | cons schema rest ih =>
    rw [fieldsOfAll_cons, fields_of_not_reference _ (href schema (List.mem_cons_self ..))] at h
    obtain ⟨own, hown, h⟩ := bind_eq_ok.mp h
    obtain ⟨others, hothers, h⟩ := bind_eq_ok.mp h
    obtain ⟨e, he, hown⟩ := bind_eq_ok.mp hown
    obtain ⟨key, hkey, hown⟩ := bind_eq_ok.mp hown
    cases hown
    cases h
    exact .cons ⟨hkey, he⟩ (ih (fun other hother => href other (List.mem_cons_of_mem _ hother))
      hothers)

theorem expr_array_cases {info : Info} {items : Schema} {e : Expr}
    (hnull : info.replacement = .null) (he : (Schema.array info items).expr expand = .ok e) :
    ∃ i, items.expr expand = .ok i ∧ e = .array i (info.modifiers true) := by
  rw [Schema.expr, Info.expr_of_null hnull] at he
  obtain ⟨d, hd, rfl⟩ := map_eq_ok.mp he
  obtain ⟨i, hi, rfl⟩ := map_eq_ok.mp hd
  exact ⟨i, hi, rfl⟩

theorem expr_object_cases {info : Info} {properties : List Schema} {e : Expr}
    (hnull : info.replacement = .null) (he : (Schema.object info properties).expr expand = .ok e) :
    properties ≠ [] ∧ ∃ fields, fieldsOfAll expand properties = .ok fields ∧
      e = .object fields (info.modifiers true) := by
  cases properties with
  | nil =>
    rw [Schema.expr, Info.expr_of_null hnull] at he
    cases he
  | cons first rest =>
    rw [Schema.expr, Info.expr_of_null hnull] at he
    obtain ⟨d, hd, rfl⟩ := map_eq_ok.mp he
    obtain ⟨fields, hfields, rfl⟩ := map_eq_ok.mp hd
    exact ⟨List.cons_ne_nil _ _, fields, hfields, rfl⟩

/-- Under a replacement, the expression is the replacement with its modifiers. -/
theorem expr_replaced_cases (schema : Schema) {e : Expr} (href : schema.isReference = false)
    (hreplaced : schema.info.replacement ≠ .null) (he : schema.expr expand = .ok e) :
    ∃ code, schema.info.replacement = .text code ∧
      e = .verbatim code (schema.info.modifiers false) := by
  -- Whatever the type is, its own definition is set aside.
  obtain ⟨definition, hdefinition⟩ :
      ∃ definition, schema.expr expand = schema.info.expr definition := by
    cases schema with
    | reference info target => cases href
    | object info properties => cases properties <;> exact ⟨_, rfl⟩
    | _ => exact ⟨_, rfl⟩
  rw [hdefinition] at he
  rcases Info.expr_cases he with ⟨hnull, _⟩ | ⟨code, hcode⟩
  · exact absurd hnull hreplaced
  · rw [Info.expr_of_text hcode] at he
    cases he
    exact ⟨code, hcode, rfl⟩

theorem GivesField.closed_key {schema : Schema} {field : Field}
    (hgives : GivesField expand schema field) (h : ∀ t ∈ schema.texts, Closed t) :
    Closed field.1 := by
  apply FieldName.closed_key hgives.1
  intro t ht
  apply h t (info_texts_subset _)
  simp only [Info.texts, List.mem_append, ht, true_or]

/-- The code of a schema without references is closed, if its texts are. -/
theorem isClosed_expr {schema : Schema} {e : Expr} (href : schema.references = [])
    (h : ∀ t ∈ schema.texts, Closed t) (he : schema.expr expand = .ok e) : e.IsClosed := by
  induction schema generalizing e with
  | string info formats pattern members =>
    simp only [texts, List.forall_mem_append] at h
    obtain ⟨⟨hinfo, hpattern⟩, hmembers⟩ := h
    refine Info.closed_expr he hinfo fun d _ hd => ?_
    obtain ⟨rules, hrules, rfl⟩ := map_eq_ok.mp hd
    exact List.forall_mem_append.mpr
      ⟨closed_stringConstraints hrules hpattern hmembers, Info.closed_modifiers hinfo true⟩
  | number info whole minimum maximum =>
    simp only [texts, List.forall_mem_append] at h
    obtain ⟨⟨hinfo, hminimum⟩, hmaximum⟩ := h
    refine Info.closed_expr he hinfo fun d _ hd => ?_
    obtain ⟨rules, hrules, rfl⟩ := map_eq_ok.mp hd
    exact List.forall_mem_append.mpr
      ⟨closed_numberConstraints hrules hminimum hmaximum, Info.closed_modifiers hinfo true⟩
  -- Without a replacement the items have no reference either, so the induction goes through them.
  | array info items ih =>
    obtain ⟨hinfo, hitems⟩ := List.forall_mem_append.mp h
    refine Info.closed_expr he hinfo fun d hnull hd => ?_
    obtain ⟨i, hi, rfl⟩ := map_eq_ok.mp hd
    have href : items.references = [] := (if_pos hnull).symm.trans href
    exact ⟨ih href hitems hi, Info.closed_modifiers hinfo true⟩
  | object info properties ih =>
    obtain ⟨hinfo, hproperties⟩ := List.forall_mem_append.mp h
    by_cases hnull : info.replacement = .null
    · obtain ⟨_, fields, hfields, rfl⟩ := expr_object_cases hnull he
      have href := references_of_referencesOfAll ((if_pos hnull).symm.trans href)
      have hgives := forall₂_givesField (fun p hp => isReference_of_references (href p hp)) hfields
      refine ⟨fieldsClosed_iff.mpr fun f hf => ?_, Info.closed_modifiers hinfo true⟩
      -- Each field comes from a property.
      obtain ⟨p, hp, hfield⟩ := exists_of_mem_right hgives hf
      have hp' : ∀ t ∈ p.texts, Closed t :=
        fun t ht => hproperties t (mem_textsOfAll.mpr ⟨p, hp, ht⟩)
      exact ⟨hfield.closed_key hp', ih p hp (href p hp) hp' hfield.2⟩
    -- Under a replacement only its code and the modifiers are written.
    · obtain ⟨code, hcode, rfl⟩ := expr_replaced_cases (.object info properties) rfl hnull he
      refine ⟨hinfo code (List.mem_append_right _ ?_), Info.closed_modifiers hinfo false⟩
      have hcode : info.replacement = .text code := hcode
      rw [hcode]
      exact List.mem_singleton.mpr rfl
  -- These have no code but under a replacement.
  | bareArray info | bareObject info | unsupported info kind =>
    refine Info.closed_expr he h fun d _ hd => ?_
    cases hd
  | reference info target => cases href

/-! ## Objects within schemas -/

mutual

/-- The properties of each object in the schema, those of an object before those of the objects in
it. Under a replacement there are none. -/
def objects : Schema → List (List Schema)
  | .array info items => if info.replacement = .null then items.objects else []
  | .object info properties =>
    if info.replacement = .null then properties :: objectsOfAll properties else []
  | _ => []

/-- The properties of each object in the schemas. -/
def objectsOfAll : List Schema → List (List Schema)
  | [] => []
  | schema :: rest => schema.objects ++ objectsOfAll rest

end

theorem forall₂_wrappersOfAll {schemas : List Schema} {fields : List Field}
    (hgives : List.Forall₂ (GivesField expand) schemas fields)
    (h : ∀ schema ∈ schemas, ∀ e, schema.expr expand = .ok e →
      List.Forall₂ (GivesObject expand) schema.objects e.wrappers) :
    List.Forall₂ (GivesObject expand) (objectsOfAll schemas) (wrappersOfAll fields) := by
  induction hgives with
  | nil => exact .nil
  -- The objects of the first schema are in the code of the first field, and so on.
  | @cons schema field rest others hfirst _ ih =>
    have hrest := ih fun other hother => h other (List.mem_cons_of_mem _ hother)
    exact List.rel_append (h schema (List.mem_cons_self ..) field.2 hfirst.2) hrest

/-- The objects in the code of a schema without references are those of the schema, and their fields
are those of its properties. -/
theorem forall₂_wrappers {schema : Schema} {e : Expr} (href : schema.references = [])
    (he : schema.expr expand = .ok e) :
    List.Forall₂ (GivesObject expand) schema.objects e.wrappers := by
  induction schema generalizing e with
  | reference info target => cases href
  -- An array is no object itself, but there are objects in its items.
  | array info items ih =>
    by_cases hnull : info.replacement = .null
    · obtain ⟨i, hi, rfl⟩ := expr_array_cases hnull he
      have href : items.references = [] := (if_pos hnull).symm.trans href
      have hitems := ih href hi
      rw [objects, if_pos hnull]
      exact hitems
    -- Code that is taken verbatim counts as no object.
    · obtain ⟨code, _, rfl⟩ := expr_replaced_cases (.array info items) rfl hnull he
      rw [objects, if_neg hnull]
      exact .nil
  | object info properties ih =>
    by_cases hnull : info.replacement = .null
    · obtain ⟨hne, fields, hfields, rfl⟩ := expr_object_cases hnull he
      have href := references_of_referencesOfAll ((if_pos hnull).symm.trans href)
      -- No property is a reference, so each gives one field.
      have hgives := forall₂_givesField (fun p hp => isReference_of_references (href p hp)) hfields
      have hfirst : fields ≠ [] := by
        rintro rfl
        cases hgives
        exact hne rfl
      rw [objects, if_pos hnull]
      -- The object comes before those in its properties, in the schema and in the code alike.
      have hinner := forall₂_wrappersOfAll hgives fun p hp e he => ih p hp (href p hp) he
      exact .cons ⟨hfirst, hgives⟩ hinner
    · obtain ⟨code, _, rfl⟩ := expr_replaced_cases (.object info properties) rfl hnull he
      rw [objects, if_neg hnull]
      exact .nil
  -- No other type has objects in its code.
  | string info formats pattern members =>
    rw [Info.wrappers_expr he fun d hd modifiers => ?_]
    · exact .nil
    · obtain ⟨rules, _, rfl⟩ := map_eq_ok.mp hd
      rfl
  | number info whole minimum maximum =>
    rw [Info.wrappers_expr he fun d hd modifiers => ?_]
    · exact .nil
    · obtain ⟨rules, _, rfl⟩ := map_eq_ok.mp hd
      rfl
  | bareArray info | bareObject info | unsupported info kind =>
    rw [Info.wrappers_expr he fun d hd modifiers => by cases hd]
    exact .nil

end Schema

end RouteRules
