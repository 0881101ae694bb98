import RouteRules.Proofs.Rule.Chains

/-!
# What a replacement hides

A schema with a text in place of its definition is written from its name, this text and two of its
modifiers. Its definition is not looked at: neither the schemas in it nor the references are
visited, and nothing that is wrong with them is found.

## Main definitions

- `Schema.IsReplaced`: a schema under this name with this text in place of its definition.

## Main statements

- `Visitable.eq_of_replaced`: from a replaced schema nothing else can be visited.
- `Schema.isReplaced_of_read`: which schemas of a document are replaced, and by which text.
- `Context.text_of_read_replaced`: what is written for such a schema, by what it states.
- `Context.text_of_replaced`: what is written, in every position and whatever is hidden.
-/

namespace RouteRules

/-- A schema under this name that has this text, blank or not, in place of its definition. -/
structure Schema.IsReplaced (schema : Schema) (name code : String) : Prop where
  isReference : schema.isReference = false
  name : schema.info.name = .text name
  replacement : schema.info.replacement = .text code

/-- The modifiers that a replaced schema keeps. Nothing is appended. -/
def Info.keptText (info : Info) : String :=
  info.markText ++ callText ".description('" info.description.spliced? "')"

namespace Context

variable {c : Context} {schema : Schema} {name code : String}

/-- From a schema with a replacement nothing else can be visited. -/
theorem Visitable.eq_of_replaced {inner : Schema} (h : c.Visitable schema inner)
    (href : schema.isReference = false) (hreplaced : schema.info.replacement ≠ .null) :
    inner = schema := by
  -- Parts are visited only without a replacement, and other schemas only from references.
  induction h with
  | root => rfl
  | items _ hnull ih =>
    rw [← ih] at hreplaced
    exact absurd hnull hreplaced
  | property _ hnull _ ih =>
    rw [← ih] at hreplaced
    exact absurd hnull hreplaced
  | renamed _ _ ih =>
    rw [← ih] at href
    cases href
  | component _ _ _ ih =>
    rw [← ih] at href
    cases href

end Context

namespace Schema.IsReplaced

variable {c : Context} {schema : Schema} {name code : String}

theorem replacement_ne_null (h : schema.IsReplaced name code) :
    schema.info.replacement ≠ .null := by
  intro hnull
  rw [h.replacement] at hnull
  cases hnull

theorem expr_eq (h : schema.IsReplaced name code) :
    c.expr schema = .ok (.verbatim code (schema.info.modifiers false)) := by
  -- Whatever the kind, there is an expression, and it is the replacement.
  obtain ⟨e, he⟩ : ∃ e, schema.expr c.expand = .ok e :=
    Schema.expr_ok_of_replaced h.isReference h.replacement
  obtain ⟨found, hfound, rfl⟩ :=
    Schema.expr_replaced_cases schema h.isReference h.replacement_ne_null he
  rw [h.replacement] at hfound
  cases hfound
  exact he

theorem exprText_eq (h : schema.IsReplaced name code) :
    c.exprText schema = .ok (code ++ schema.info.keptText) := by
  have hmodifiers : Rule.chainText (schema.info.modifiers false) = schema.info.keptText := by
    rw [Rule.chainText_modifiers, if_neg Bool.false_ne_true, String.append_empty]
    rfl
  rw [Context.exprText, h.expr_eq, map_ok, Expr.render, hmodifiers]

theorem text_eq (h : schema.IsReplaced name code) : c.text schema =
    .ok (fieldText (FieldName.quote name) (code ++ schema.info.keptText)) := by
  obtain ⟨e, he, hrender⟩ := map_eq_ok.mp (h.exprText_eq (c := c))
  rw [c.text_eq_keyedText h.isReference, Context.keyedText, he, ok_bind, h.name,
    FieldName.key_text, ok_bind, hrender]
  rfl

/-- As a group of its own it is one field too. -/
theorem memberText_eq (h : schema.IsReplaced name code) : c.memberText schema = c.text schema := by
  have hfields : schema.memberFields c.expand = schema.fields c.expand := by
    apply Schema.memberFields_eq_fields
    rintro info first rest rfl
    exact h.replacement_ne_null
  rw [Context.memberText, Context.memberFields, hfields]
  rfl

end Schema.IsReplaced

/-! ## Over the document -/

section Document

variable {c : Context} {place : Place} {entries : List (String × Value)} {schema : Schema}
  {name code : String}

/-- A property or parameter with a text under the key for replacements is replaced by this text,
unless it is a reference: nothing beside a reference counts. -/
theorem Schema.isReplaced_of_read {s : Settings}
    (h : Schema.read s place (.object entries) = .ok schema)
    (href : (Facets.ofEntries entries).reference? = none) (hname : place.name = .text name)
    (hcode : (Facets.ofEntries entries).named s.replaceKey = .ok (.text code)) :
    schema.IsReplaced name code where
  isReference := by
    obtain ⟨_, _, hstated, _, hform⟩ := form_of_read h
    cases hstated
    cases hform with
    | reference htarget => cases href.symm.trans htarget
    | _ => rfl
  name := by
    rw [name_of_read h (by rw [hname]; exact nofun), hname]
  replacement := by
    obtain ⟨_, info, hstated, hinfo, hform⟩ := form_of_read h
    cases hstated
    rw [hform.info_eq]
    exact Except.ok.inj ((Facets.common_of_info hinfo).replacement.symm.trans hcode)

/-- A replaced property or parameter is written from three of the facets that its schema states and
from the mark of its place. -/
theorem Context.text_of_read_replaced
    (h : Schema.read c.settings place (.object entries) = .ok schema)
    (href : (Facets.ofEntries entries).reference? = none) (hname : place.name = .text name)
    (hcode : (Facets.ofEntries entries).named c.settings.replaceKey = .ok (.text code)) :
    c.text schema = .ok (fieldText (FieldName.quote name) (code ++
      ((if (Facets.ofEntries entries).get "required" = .bool true ∨ place.listed.isBlank = false
        then ".required()" else "") ++
      callText ".description('" ((Facets.ofEntries entries).get "description").spliced?
        "')"))) := by
  have hreplaced := Schema.isReplaced_of_read h href hname hcode
  obtain ⟨_, info, hstated, hinfo, hform⟩ := Schema.form_of_read h
  cases hstated
  rw [hreplaced.text_eq, Info.keptText, Info.markText, hform.info_eq,
    (Facets.common_of_info hinfo).description]
  simp only [Facets.isRequired_of_info hinfo]

end Document

namespace Context

/-- A replaced schema is written as its key, the replacement as it is, and the modifiers that it
keeps, as a field and as a group of its own. Compiling it visits nothing else. So two such schemas
that agree in what is written have the same text, whatever their definitions are and whatever they
are compiled with. -/
theorem text_of_replaced (c : Context) (schema : Schema) (name code : String)
    (h : schema.IsReplaced name code) :
    c.text schema = .ok (FieldName.quote name ++ ": " ++ code ++
      (if schema.info.isRequired then ".required()" else "") ++
      callText ".description('" schema.info.description.spliced? "')" ++ fieldSeparator) ∧
    c.memberText schema = c.text schema ∧
    c.exprText schema = .ok (code ++ (if schema.info.isRequired then ".required()" else "") ++
      callText ".description('" schema.info.description.spliced? "')") ∧
    (∀ inner, Walk.Visits c (Walk.start schema) inner → inner = schema) ∧
    (∀ r, ¬ Walk.VisitsReference c (Walk.start schema) r) ∧
    ∀ (d : Context) (other : Schema), other.IsReplaced name code →
      other.info.isRequired = schema.info.isRequired →
      other.info.description.spliced? = schema.info.description.spliced? →
      d.text other = c.text schema ∧ d.memberText other = c.memberText schema ∧
        d.exprText other = c.exprText schema := by
  refine ⟨?text, h.memberText_eq, ?value, ?schemas, ?references, ?others⟩
  case text =>
    rw [h.text_eq, fieldText, Info.keptText, Info.markText]
    simp only [String.append_assoc]
  case value =>
    rw [h.exprText_eq, Info.keptText, Info.markText, String.append_assoc]
  -- A visit leads from schema to schema, and nothing leads on from a replacement.
  case schemas =>
    intro inner hvisits
    exact hvisits.visitable.eq_of_replaced h.isReference h.replacement_ne_null
  case references =>
    intro r hvisits
    obtain ⟨info, hvisitable⟩ := hvisits.visitable
    have href := h.isReference
    rw [← hvisitable.eq_of_replaced href h.replacement_ne_null] at href
    cases href
  -- All three texts are made of what the two have in common.
  case others =>
    intro d other hother hrequired hdescription
    have hkept : other.info.keptText = schema.info.keptText := by
      rw [Info.keptText, Info.keptText, Info.markText, Info.markText, hrequired, hdescription]
    rw [h.memberText_eq, hother.memberText_eq, h.text_eq, hother.text_eq, h.exprText_eq,
      hother.exprText_eq, hkept]
    exact ⟨rfl, rfl, rfl⟩

/-! ## Hidden loops -/

/-- A catalogue with a component that is its own name. -/
def loops : Context where
  settings := {}
  catalogue := .ofList
    [(.text "Loop", .object [("$ref", .text "#/components/schemas/Loop")])]

/-- A required field with an empty replacement, and something to append. -/
def hiddenInfo : Info where
  name := .text "x-id"
  required := .bool true
  description := .text "an id"
  append := .text ".strict()"
  replacement := .text ""
  path := .null

/-- An object whose property leads to the loop. -/
def hiddenLoop : Schema :=
  .object hiddenInfo [.reference .plain ⟨.text "#/components/schemas/Loop", .null⟩]

/-- A schema of a type that there is not, under the same name. -/
def hiddenKind : Schema := .unsupported { hiddenInfo with append := .null } (.text "file")

/-- Neither the loop nor the type comes to light, in this catalogue or in one without the loop. -/
theorem text_of_replaced_loop :
    hiddenLoop.IsReplaced "x-id" "" ∧
      loops.text hiddenLoop = .ok "'x-id': .required().description('an id'),\n    " ∧
      Context.text ⟨{}, ∅⟩ hiddenKind = loops.text hiddenLoop := by
  have hloop : hiddenLoop.IsReplaced "x-id" "" := ⟨rfl, rfl, rfl⟩
  obtain ⟨htext, _, _, _, _, hothers⟩ := text_of_replaced loops hiddenLoop "x-id" "" hloop
  refine ⟨hloop, htext.trans (by decide +kernel), ?_⟩
  exact (hothers ⟨{}, ∅⟩ hiddenKind ⟨rfl, rfl, rfl⟩ rfl rfl).1

end Context

end RouteRules
