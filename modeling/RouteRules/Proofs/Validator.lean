import RouteRules.Proofs.Expr.Joints
import RouteRules.Proofs.Route.Relevance

/-!
# The name of the validator

Nothing that is read or looked up depends on the name of the validator, and no fault does. Only what
is written does: each text, number, array and object is built on the name, and so is each group.
Apart from these places, two names give the same texts, even where a text of the document happens to
contain one of the names.

## Main definitions

- `Context.called`: a context with another name for the validator.
- `Schema.constructors`: the texts, numbers, arrays and objects that a schema is written with.

## Main statements

- `Schema.read_called`, `Context.expand_called`, `Context.groupFields_called`: reading and compiling
  take no notice of the name.
- `Schema.constructors_of_expr`: a schema is written with the constructors that it asks for.
- `Context.compileRoute_called`: the groups of a route, as pieces to be joined with any name.
-/

namespace RouteRules

/-- The settings with this name for the validator. -/
def Settings.called (s : Settings) (name : String) : Settings := { s with validator := .text name }

/-- The context with this name for the validator. -/
def Context.called (c : Context) (name : String) : Context :=
  { c with settings := c.settings.called name }

@[simp] theorem Context.validator_called (c : Context) (name : String) :
    (c.called name).validator = name := rfl

/-! ## Reading -/

namespace Schema

/-- A schema is read without the name of the validator. -/
theorem read_called (s : Settings) (name : String) (place : Place) (v : Value) :
    read (s.called name) place v = read s place v := by
  induction v using reading_induction generalizing place with
  | other v h => rw [read_of_not_object _ place h, read_of_not_object _ place h]
  | object entries items properties =>
    have htyped : readTyped (s.called name) place (Facets.ofEntries entries) =
        readTyped s place (Facets.ofEntries entries) := by
      funext info
      unfold readTyped
      split
      -- Only arrays and objects read further schemas.
      case h_3 =>
        unfold readArray
        split
        · rfl
        · rfl
        · rename_i found
          rw [items _ found]
      case h_4 =>
        unfold readObject
        split
        · rfl
        · rfl
        · rename_i found
          rw [readProperties_eq_mapM, readProperties_eq_mapM,
            mapM_congr_of_before fun _ e _ hall _ => ?_]
          apply properties _ found e.1 e.2
          rw [hall]
          exact List.mem_append_right _ (List.mem_cons_self ..)
        · rfl
      all_goals rfl
    have hkind : readKind (s.called name) place (Facets.ofEntries entries) =
        readKind s place (Facets.ofEntries entries) := by
      funext info
      unfold readKind
      rw [htyped]
    rw [read_object, read_object, hkind]
    rfl

end Schema

namespace Route

variable (s : Settings) (name : String)

theorem readParameters_called (position : Nat) (vs : List Value) :
    readParameters (s.called name) position vs = readParameters s position vs := by
  induction vs generalizing position with
  | nil => rfl
  | cons v rest ih => simp only [readParameters, readParameter, Schema.read_called, ih]

theorem readBody_called (operation : List (String × Value)) :
    readBody (s.called name) operation = readBody s operation := by
  unfold readBody
  simp only [Schema.read_called]
  rfl

/-- So is a route. -/
theorem read_called (operation : Value) : read (s.called name) operation = read s operation := by
  unfold read ofEntries
  simp only [readParameters_called, readBody_called]

end Route

namespace Context

variable (c : Context) (name : String)

/-! ## Compiling -/

theorem content_called : (c.called name).content = c.content := by
  funext r
  have hresolve : (c.called name).resolve r.path r.operationId =
      c.resolve r.path r.operationId := by
    unfold resolve
    simp only [called, Schema.read_called]
    rfl
  rw [content_eq, content_eq, hresolve]
  rfl

/-- A reference stands for the same fields, whatever the name is. -/
theorem expand_called : (c.called name).expand = c.expand := by
  -- Induction on the limit, since the expansion is one under a limit.
  have hwithin : ∀ limit, (c.called name).expandWithin limit = c.expandWithin limit := by
    intro limit
    induction limit with
    | zero =>
      funext r
      rw [expandWithin, expandWithin, content_called]
    | succ limit ih =>
      funext r
      rw [expandWithin, expandWithin, content_called, ih]
  exact hwithin _

/-- The groups of a route are the same, until they are written. -/
theorem groupFields_called (route : Route) :
    (c.called name).groupFields route = c.groupFields route := by
  unfold groupFields bodyFields memberFields
  have hparameters : (c.called name).parameterFields = c.parameterFields := by
    funext p
    simp only [parameterFields, fields, expand_called]
  rw [hparameters, expand_called]

end Context

/-! ## Constructors of schemas -/

namespace Schema

mutual

/-- How many texts, numbers, arrays and objects the schema is written with. Under a replacement
there are none. -/
def constructors : Schema → Nat
  | .string info _ _ _ => if info.replacement = .null then 1 else 0
  | .number info _ _ _ => if info.replacement = .null then 1 else 0
  | .array info items => if info.replacement = .null then items.constructors + 1 else 0
  | .object info properties =>
    if info.replacement = .null then constructorsOfAll properties + 1 else 0
  | _ => 0

/-- How many the schemas are written with. -/
def constructorsOfAll : List Schema → Nat
  | [] => 0
  | schema :: rest => schema.constructors + constructorsOfAll rest

end

variable {expand : Expansion}

theorem constructorsOfAll_eq {schemas : List Schema} {fields : List Field}
    (h : List.Forall₂ (fun schema field => field.2.constructors = schema.constructors) schemas
      fields) : constructorsOfFields fields = constructorsOfAll schemas := by
  induction h with
  | nil => rfl
  | cons hfirst _ ih => rw [constructorsOfFields, constructorsOfAll, hfirst, ih]

/-- An expression builds what its definition does, or nothing under a replacement. -/
theorem constructors_of_definition {info : Info} {definition : Except Fault (List Rule → Expr)}
    {e : Expr} {n : Nat} (he : info.expr definition = .ok e)
    (h : info.replacement = .null → ∀ d, definition = .ok d → ∀ modifiers,
      (d modifiers).constructors = n) :
    e.constructors = if info.replacement = .null then n else 0 := by
  -- A replacement is taken verbatim, and what it calls itself does not count.
  rcases Info.expr_cases he with ⟨hnull, d, hd⟩ | ⟨code, hcode⟩
  · rw [Info.expr_of_null hnull, hd] at he
    cases he
    rw [if_pos hnull, h hnull d hd]
  · have hnull : info.replacement ≠ .null := by
      rw [hcode]
      exact fun h => by cases h
    rw [Info.expr_of_text hcode] at he
    cases he
    rw [if_neg hnull, Expr.constructors]

/-- The code of a schema without references builds what the schema asks for. -/
theorem constructors_of_expr {schema : Schema} {e : Expr} (href : schema.references = [])
    (he : schema.expr expand = .ok e) : e.constructors = schema.constructors := by
  induction schema generalizing e with
  | string info formats pattern members =>
    refine constructors_of_definition he fun _ d hd modifiers => ?_
    obtain ⟨rules, _, rfl⟩ := map_eq_ok.mp hd
    rfl
  | number info whole minimum maximum =>
    refine constructors_of_definition he fun _ d hd modifiers => ?_
    obtain ⟨rules, _, rfl⟩ := map_eq_ok.mp hd
    rfl
  -- One for the array itself, behind those of its items.
  | array info items ih =>
    refine constructors_of_definition he fun hnull d hd modifiers => ?_
    obtain ⟨i, hi, rfl⟩ := map_eq_ok.mp hd
    have href : items.references = [] := (if_pos hnull).symm.trans href
    exact congrArg (· + 1) (ih href hi)
  | object info properties ih =>
    cases properties with
    | nil =>
      -- Without properties there is code only under a replacement.
      exact constructors_of_definition he fun _ d hd => by cases hd
    | cons first rest =>
      refine constructors_of_definition he fun hnull d hd modifiers => ?_
      obtain ⟨fields, hfields, rfl⟩ := map_eq_ok.mp hd
      have href := references_of_referencesOfAll ((if_pos hnull).symm.trans href)
      -- No property is a reference, so each has its own field.
      have hgives := forall₂_givesField (fun p hp => isReference_of_references (href p hp)) hfields
      have hproperties := forall₂_imp_of_mem hgives fun p hp field _ hfield =>
        ih p hp (href p hp) hfield.2
      exact congrArg (· + 1) (constructorsOfAll_eq hproperties)
  | bareArray info | bareObject info | unsupported info kind =>
    -- Nor is there any definition here.
    rw [constructors_of_definition he fun _ d hd => by cases hd]
    exact ite_self 0
  | reference info target => cases href

end Schema

/-! ## Groups -/

namespace Context

variable {c : Context} {route : Route}

/-- The fields of a group build what the schemas that they expand to ask for. -/
theorem constructors_of_fieldsOf {group : Group} {fields : List Field}
    (h : c.fieldsOf route group = .ok fields) : ∃ ms, ExpandsAll c (route.declared group) ms ∧
      constructorsOfFields fields = Schema.constructorsOfAll ms := by
  have hdeclared := fieldsOf_declared h
  obtain ⟨ms, hms⟩ := exists_expandsAll_of_fields hdeclared
  -- The expansion gives the same fields, and has no references left to count through.
  have hfields : Schema.fieldsOfAll c.expand ms = .ok fields :=
    (hms.fieldsOfAll_eq _).symm.trans hdeclared
  have href := hms.references_eq
  have hgives := Schema.forall₂_givesField
    (fun m hm => Schema.isReference_of_references (href m hm)) hfields
  refine ⟨ms, hms, Schema.constructorsOfAll_eq (forall₂_imp_of_mem hgives ?_)⟩
  intro m hm field _ hfield
  exact Schema.constructors_of_expr (href m hm) hfield.2

/-- A group is one more object around its fields. -/
theorem spells_groupText (c : Context) (fields : List Field) :
    Spells (fun name => (c.called name).groupText fields) (1 + constructorsOfFields fields) :=
  (Expr.spells_render (.object fields [])).congr (fun _ => rfl) (Nat.add_comm _ _)

/-- The name comes in when everything else is done. -/
theorem compileRoute_called_object (c : Context) (name : String)
    (operation : List (String × Value)) : (c.called name).compileRoute (.object operation) =
      List.map (fun g => (g.1, (c.called name).groupText g.2)) <$>
        (Route.read c.settings (.object operation) >>= c.groupFields) := by
  have hread : Route.read (c.called name).settings (.object operation) =
      Route.read c.settings (.object operation) := Route.read_called _ _ _
  rw [compileRoute_object, hread, map_bind]
  exact bind_congr fun route => by rw [groupFields_called]

/-- The name does not change a fault. -/
theorem compileRoute_called_error {name other : String} {operation : Value} {fault : Fault}
    (h : (c.called name).compileRoute operation = .error fault) :
    (c.called other).compileRoute operation = .error fault := by
  cases operation with
  | object entries =>
    rw [compileRoute_called_object] at h ⊢
    exact map_eq_error.mpr (map_eq_error.mp h)
  -- What is no object has one fault in every context.
  | scalar x =>
    obtain ⟨found, hfound⟩ := compileRoute_scalar x
    rw [hfound] at h ⊢
    exact h
  | list items =>
    rw [compileRoute_list] at h ⊢
    exact h

/-- The groups with these pieces, joined with a name. -/
def spelled (name : String) (cut : List (Group × List String)) : Groups :=
  cut.map fun g => (g.1, name.intercalate g.2)

/-- The groups of a route are the same pieces under every name. -/
theorem exists_spelled (c : Context) (fieldsOf : Group → List Field) (groups : List Group) :
    ∃ cut : List (Group × List String),
      (∀ name, (groups.map fun group => (group, (c.called name).groupText (fieldsOf group))) =
        spelled name cut) ∧
      ∀ group pieces, (group, pieces) ∈ cut →
        pieces.length = (1 + constructorsOfFields (fieldsOf group)) + 1 := by
  -- The pieces of a group are chosen once, for all names.
  choose pieces hlength htext using fun group => spells_groupText c (fieldsOf group)
  refine ⟨groups.map fun group => (group, pieces group), fun name => ?_, ?_⟩
  · rw [spelled, List.map_map]
    apply List.map_congr_left
    intro group _
    exact congrArg (group, ·) (htext group name)
  · intro group found hmem
    obtain ⟨_, _, heq⟩ := List.mem_map.mp hmem
    cases heq
    exact hlength group

/-- For two names, a route is at fault with one exactly if it has the same fault with the other.
Otherwise the groups are the same pieces, joined with the one name or with the other. A group has
one joint of its own and one for each text, number, array and object in the schemas that it expands
to; in replacements there are none. -/
theorem compileRoute_called (c : Context) (name : String) (operation : Value) :
    (∀ other fault, (c.called name).compileRoute operation = .error fault ↔
      (c.called other).compileRoute operation = .error fault) ∧
    ∀ groups, (c.called name).compileRoute operation = .ok groups →
      ∃ (route : Route) (cut : List (Group × List String)),
        Route.read c.settings operation = .ok route ∧
        (∀ other, (c.called other).compileRoute operation = .ok (spelled other cut)) ∧
        ∀ group pieces, (group, pieces) ∈ cut → ∃ ms, ExpandsAll c (route.declared group) ms ∧
          pieces.length = (1 + Schema.constructorsOfAll ms) + 1 := by
  refine ⟨fun other fault => ⟨compileRoute_called_error, compileRoute_called_error⟩, ?_⟩
  intro groups h
  cases operation with
  | scalar x =>
    obtain ⟨fault, hfault⟩ := compileRoute_scalar x
    rw [hfault] at h
    cases h
  | list items => cases h
  | object entries =>
    rw [compileRoute_called_object] at h
    obtain ⟨compiled, hcompiled, _⟩ := map_eq_ok.mp h
    obtain ⟨route, hread, hcompiled⟩ := bind_eq_ok.mp hcompiled
    obtain ⟨_, fieldsOf, hfieldsOf, hgroups⟩ :=
      groupFields_eq_ok (hasScalarLocations_of_groupFields hcompiled) hcompiled
    -- Which groups are written depends on their fields only.
    rw [List.filter_map] at hgroups
    -- The pieces are cut from the fields, before any name comes in.
    obtain ⟨cut, hcut, hpieces⟩ := exists_spelled c fieldsOf
      ([.query, .path, .body].filter ((!·.2.isEmpty) ∘ fun group => (group, fieldsOf group)))
    refine ⟨route, cut, hread, fun other => ?_, fun group pieces hmem => ?_⟩
    · rw [compileRoute_called_object, hread, ok_bind, hcompiled, map_ok, hgroups, List.map_map,
        ← hcut other]
      rfl
    · obtain ⟨ms, hms, hconstructors⟩ := constructors_of_fieldsOf (hfieldsOf group)
      exact ⟨ms, hms, hconstructors ▸ hpieces group pieces hmem⟩

/-! ## A reservation -/

/-- A name for a reservation, described by a word that is also the name of a validator. -/
def guest : Value :=
  .object [("name", .text "guest"), ("in", .text "query"), ("type", .text "string"),
    ("description", .text "Joi, or whoever comes")]

/-- A table, written by a replacement that calls the validator itself. -/
def table : Value :=
  .object [("name", .text "table"), ("in", .text "query"), ("x-joi-replace", .text "Joi.any()")]

def reservation : Value := .object [("parameters", .list [guest, table])]

/-- Another name stands for the group and for the guest. The description and the replacement keep
the usual one. -/
theorem compileRoute_called_reservation :
    (Context.called ⟨{}, ∅⟩ "Joi").compileRoute reservation = .ok [(.query,
      "Joi.object().keys(\x7b\n    guest: Joi.string().description('Joi, or whoever comes')"
        ++ ",\n    table: Joi.any()\n  \x7d)")] ∧
    (Context.called ⟨{}, ∅⟩ "yup").compileRoute reservation = .ok [(.query,
      "yup.object().keys(\x7b\n    guest: yup.string().description('Joi, or whoever comes')"
        ++ ",\n    table: Joi.any()\n  \x7d)")] ∧
    ∃ (route : Route) (cut : List (Group × List String)),
      Route.read {} reservation = .ok route ∧
      (∀ name, (Context.called ⟨{}, ∅⟩ name).compileRoute reservation = .ok (spelled name cut)) ∧
      ∀ group pieces, (group, pieces) ∈ cut → ∃ ms,
        ExpandsAll ⟨{}, ∅⟩ (route.declared group) ms ∧
        pieces.length = (1 + Schema.constructorsOfAll ms) + 1 := by
  have hgroups : (Context.called ⟨{}, ∅⟩ "Joi").compileRoute reservation = .ok [(.query,
      "Joi.object().keys(\x7b\n    guest: Joi.string().description('Joi, or whoever comes')"
        ++ ",\n    table: Joi.any()\n  \x7d)")] := by decide +kernel
  refine ⟨hgroups, by decide +kernel, ?_⟩
  exact (compileRoute_called ⟨{}, ∅⟩ "Joi" reservation).2 _ hgroups

end Context

end RouteRules
