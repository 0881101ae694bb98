import RouteRules.Proofs.Schema.Texts
import RouteRules.Proofs.Walk.Visits

/-!
# Who is to blame

A compilation that fails blames a schema or a component by its name, or it fails in a single value.
Whatever is blamed has been visited, and has the fault that is reported.

## Main definitions

- `Context.Visitable`: the schemas that a compilation can come to.
- `Context.StatedIn`: the values of which schemas are read.
- `Context.Blames`: what a fault says about the schemas that have been visited.

## Main statements

- `Walk.within_run`, `Walk.Visits.visitable`: a walk visits nothing but such schemas.
- `Walk.exists_last`: the last step of a walk that fails.
- `Context.blames_of_text`: whatever is blamed has the fault.
-/

namespace RouteRules

/-! ## Schemas that can be visited -/

/-- A schema that compiling `root` can come to: through properties and items, but not under a
replacement, and through components. Of a component that is an object, the properties are compiled
and not the object itself, so its own replacement does not count. -/
inductive Context.Visitable (c : Context) (root : Schema) : Schema → Prop where
  | root : Visitable c root root
  | items {info : Info} {items : Schema} :
      Visitable c root (.array info items) → info.replacement = .null → Visitable c root items
  | property {info : Info} {properties : List Schema} {p : Schema} :
      Visitable c root (.object info properties) → info.replacement = .null → p ∈ properties →
      Visitable c root p
  | renamed {info own : Info} {r target : Reference} :
      Visitable c root (.reference info r) → c.Names r (.reference own target) →
      Visitable c root (.reference own target)
  | component {info own : Info} {r : Reference} {properties : List Schema} {p : Schema} :
      Visitable c root (.reference info r) → c.Names r (.object own properties) →
      p ∈ properties → Visitable c root p

namespace Walk

variable {c : Context} {root : Schema}

/-- What is done next can be visited. -/
def Task.Within (c : Context) (root : Schema) : {k : Kind} → Task k → Prop
  | _, .fields schema => c.Visitable root schema
  | _, .expr schema => c.Visitable root schema
  | _, .each schemas => ∀ schema ∈ schemas, c.Visitable root schema
  | _, .component r => ∃ info, c.Visitable root (.reference info r)

/-- What is done later can be visited. -/
def Stack.Within (c : Context) (root : Schema) : {k : Kind} → Stack k → Prop
  | _, .done => True
  | _, .key _ below => below.Within c root
  | _, .array _ below => below.Within c root
  | _, .object _ below => below.Within c root
  | _, .rest schemas below =>
    (∀ schema ∈ schemas, c.Visitable root schema) ∧ below.Within c root
  | _, .after _ below => below.Within c root
  | _, .component _ below => below.Within c root

/-- The invariant of a walk through `root`. -/
def State.Within (c : Context) (root : Schema) : State → Prop
  | .call task stack => task.Within c root ∧ stack.Within c root
  | .give _ stack => stack.Within c root
  | .ended _ => True

theorem within_back {k : Kind} {stack : Stack k} (h : stack.Within c root)
    (outcome : Except Fault k.Result) : (State.back outcome stack).Within c root := by
  cases outcome with
  | ok result => exact h
  | error fault => trivial

/-- Every move keeps the invariant. -/
theorem within_move {s t : State} (h : Move c s t) (hs : s.Within c root) : t.Within c root := by
  -- A move calls parts of the schema in hand, schemas that waited on the stack, or what a component
  -- is.
  cases h with
  | fieldsReference => exact ⟨⟨_, hs.1⟩, hs.2⟩
  | fieldsOther _ => exact hs
  | exprReference => exact ⟨⟨_, hs.1⟩, hs.2⟩
  | exprArray hnull => exact ⟨.items hs.1 hnull, hs.2⟩
  | exprObject hnull => exact ⟨fun p hp => .property hs.1 hnull hp, hs.2⟩
  -- A schema that is written in one step calls nothing.
  | exprWritten _ => exact within_back hs.2 _
  | eachNil => exact hs.2
  | eachCons =>
    obtain ⟨hall, hstack⟩ := hs
    exact ⟨hall _ (List.mem_cons_self ..), fun p hp => hall p (List.mem_cons_of_mem _ hp), hstack⟩
  | componentFault _ => trivial
  -- What a component is can be visited by way of the reference that was followed.
  | componentAlias hcontent =>
    obtain ⟨⟨info, hvisitable⟩, hstack⟩ := hs
    obtain ⟨own, hnames⟩ := Context.content_eq_alias.mp hcontent
    exact ⟨⟨own, .renamed hvisitable hnames⟩, hstack⟩
  | componentProperties hcontent =>
    obtain ⟨⟨info, hvisitable⟩, hstack⟩ := hs
    obtain ⟨own, hnames⟩ := Context.content_eq_properties.mp hcontent
    exact ⟨fun p hp => .component hvisitable hnames hp, hstack⟩
  -- With a result in hand, only the stack has to be looked at.
  | @giveKey e info stack =>
    have hbelow : stack.Within c root := hs
    exact within_back hbelow _
  | giveArray => exact hs
  | giveObject => exact hs
  | giveRest => exact hs
  | giveAfter => exact hs
  | giveComponent => exact hs
  | giveDone => trivial
  | ended => trivial

theorem within_run {s : State} (hs : s.Within c root) (n : Nat) : (run c n s).Within c root := by
  induction n with
  | zero => exact hs
  | succ n ih =>
    rw [run_succ]
    exact within_move (move_step c _) ih

theorem within_of_reaches {t : State} (h : Reaches c (start root) t) : t.Within c root := by
  obtain ⟨n, rfl⟩ := h
  have hstart : (start root).Within c root := ⟨.root, trivial⟩
  exact within_run hstart n

/-- What a walk visits can be visited, in the sense that needs no walk. -/
theorem Visits.visitable {schema : Schema} (h : Visits c (start root) schema) :
    c.Visitable root schema := by
  rcases h with ⟨stack, hreach⟩ | ⟨stack, hreach⟩
  · exact (within_of_reaches hreach).1
  · exact (within_of_reaches hreach).1

/-- A component is visited by way of a reference that can be. -/
theorem VisitsReference.visitable {r : Reference} (h : VisitsReference c (start root) r) :
    ∃ info, c.Visitable root (.reference info r) := by
  obtain ⟨stack, hreach⟩ := h
  exact (within_of_reaches hreach).1

/-! ## The last step -/

/-- A walk that comes to an end has a last step. -/
theorem exists_last {s : State} {result : Except Fault (List Field)}
    (hs : ∀ other, s ≠ .ended other) (h : EndsWith c s result) :
    ∃ t, Reaches c s t ∧ (∀ other, t ≠ .ended other) ∧ step c t = .ended result := by
  obtain ⟨n, hn⟩ := h
  -- On the number of steps, back to the one before which the walk had not ended.
  induction n with
  | zero => exact absurd hn (hs result)
  | succ n ih =>
    by_cases hend : ∃ other, run c n s = .ended other
    -- It had ended before, in the same way.
    · obtain ⟨other, hother⟩ := hend
      have hsame := hn
      rw [run_succ, hother] at hsame
      cases hsame
      exact ih hother
    · exact ⟨run c n s, ⟨n, rfl⟩, fun other hother => hend ⟨other, hother⟩,
        by rw [← run_succ, hn]⟩

/-- Where a walk fails: at a schema that is written in one step, at a component, or at a key. -/
inductive FailsAt (c : Context) (s : State) (fault : Fault) : Prop where
  | expr {schema : Schema} {stack : Stack .expr} :
      Visits c s schema → step c (.call (.expr schema) stack) = .ended (.error fault) →
      FailsAt c s fault
  | component {r : Reference} :
      VisitsReference c s r → c.content r = .error fault → FailsAt c s fault
  | key {name : Value} : FieldName.key name = .error fault → FailsAt c s fault

theorem back_eq_ended {k : Kind} {outcome : Except Fault k.Result} {stack : Stack k}
    {fault : Fault} (h : State.back outcome stack = .ended (.error fault)) :
    outcome = .error fault := by
  cases outcome with
  | ok result => cases h
  | error other =>
    cases h
    rfl

theorem failsAt_of_endsWith {s : State} {fault : Fault} (hs : ∀ other, s ≠ .ended other)
    (h : EndsWith c s (.error fault)) : FailsAt c s fault := by
  obtain ⟨t, hreach, hbefore, hlast⟩ := exists_last hs h
  -- Only three moves can end a walk with a fault.
  have hmove := move_step c t
  rw [hlast] at hmove
  generalize hend : State.ended (.error fault) = u at hmove
  cases hmove with
  | exprWritten _ => exact .expr (.inr ⟨_, hreach⟩) hlast
  | componentFault hcontent =>
    cases hend
    exact .component ⟨_, hreach⟩ hcontent
  -- The value is there already, so what fails is the key.
  | @giveKey e info stack =>
    have hkey := back_eq_ended (k := .fields) hend.symm
    rw [Info.fields, ok_bind] at hkey
    rcases bind_eq_error.mp hkey with hkey | ⟨key, _, hkey⟩
    · exact .key hkey
    · cases hkey
  | ended => exact absurd rfl (hbefore _)
  | _ => cases hend

end Walk

/-! ## Where schemas are stated -/

/-- The values that a document and the catalogue state schemas in: the document itself, the
components, and what is stated there as items or as a property. -/
inductive Context.StatedIn (c : Context) (document : Value) : Value → Prop where
  | document : StatedIn c document document
  | component {name : String} {v : Value} :
      c.catalogue.find? (.text name) = some v → StatedIn c document v
  | items {entries : List (String × Value)} {v : Value} :
      StatedIn c document (.object entries) →
      (Facets.ofEntries entries).find? "items" = some v → StatedIn c document v
  | property {entries properties : List (String × Value)} {key : String} {v : Value} :
      StatedIn c document (.object entries) →
      (Facets.ofEntries entries).find? "properties" = some (.object properties) →
      (key, v) ∈ properties → StatedIn c document v

/-- Each property of an object is read from one of the values that the object states. -/
theorem Schema.exists_of_readProperties {s : Settings} {place : Place} {required : List Value}
    {entries : List (String × Value)} {properties : List Schema} {p : Schema}
    (h : readProperties s place required entries = .ok properties) (hp : p ∈ properties) :
    ∃ key v, (key, v) ∈ entries ∧ read s (place.property required key) v = .ok p := by
  rw [readProperties_eq_mapM] at h
  obtain ⟨⟨key, v⟩, hmem, hread⟩ := exists_of_mem_right (mapM_eq_ok.mp h) hp
  exact ⟨key, v, hmem, hread⟩

namespace Context

variable {c : Context} {document : Value}

/-- The properties of an object that is read from a stated value are read from stated values. -/
theorem StatedIn.of_property {place : Place} {v : Value} {info : Info} {properties : List Schema}
    {p : Schema} (hv : c.StatedIn document v)
    (hread : Schema.read c.settings place v = .ok (.object info properties))
    (hp : p ∈ properties) :
    ∃ inner w, c.StatedIn document w ∧ Schema.read c.settings inner w = .ok p := by
  obtain ⟨entries, own, rfl, _, hform⟩ := Schema.form_of_read hread
  cases hform with
  | object _ _ hfind hproperties =>
    obtain ⟨key, w, hmem, hw⟩ := Schema.exists_of_readProperties hproperties hp
    exact ⟨_, w, .property hv hfind hmem, hw⟩

/-- Every schema that can be visited is read from a stated value. -/
theorem Visitable.exists_read {root schema : Schema} {place : Place}
    (hroot : Schema.read c.settings place document = .ok root) (h : c.Visitable root schema) :
    ∃ inner v, c.StatedIn document v ∧ Schema.read c.settings inner v = .ok schema := by
  -- On how the schema is come to. Components are read from the catalogue, parts from what their
  -- whole states.
  induction h with
  | root => exact ⟨place, document, .document, hroot⟩
  | items _ _ ih =>
    obtain ⟨inner, v, hv, hread⟩ := ih
    obtain ⟨entries, own, rfl, _, hform⟩ := Schema.form_of_read hread
    cases hform with
    | array _ _ hfind _ hitems => exact ⟨_, _, .items hv hfind, hitems⟩
  | property _ _ hp ih =>
    obtain ⟨inner, v, hv, hread⟩ := ih
    exact hv.of_property hread hp
  | renamed _ hnames _ =>
    obtain ⟨name, v, _, hfind, hread⟩ := hnames
    exact ⟨_, v, .component hfind, hread⟩
  | component _ hnames hp _ =>
    obtain ⟨name, v, _, hfind, hread⟩ := hnames
    exact (StatedIn.component hfind).of_property hread hp

end Context

/-! ## What a fault blames -/

/-- A type that is not supported is none of the five, and a schema that states none has no
properties either. -/
theorem Facets.type_eq_other {f : Facets} {kind : Value} (h : f.type = .other kind) :
    kind ∉ [.text "string", .text "integer", .text "number", .text "array", .text "object"] ∧
      (kind = .null → f.find? "properties" = none) := by
  unfold type at h
  split at h
  -- No type is stated, and no properties that would make up for it.
  case h_6 =>
    split at h
    · cases h
    · rename_i hnone
      cases h
      exact ⟨by decide, fun _ => by simpa using hnone⟩
  -- A type is stated that is none of those that were tried before.
  case h_7 hstring hinteger hnumber harray hobject hnull =>
    cases h
    refine ⟨?_, fun h => absurd h hnull⟩
    intro hmem
    simp only [List.mem_cons, List.not_mem_nil, or_false] at hmem
    rcases hmem with h | h | h | h | h
    · exact hstring h
    · exact hinteger h
    · exact hnumber h
    · exact harray h
    · exact hobject h
  all_goals cases h

namespace Context

/-- What a fault says about the schemas that compiling `root`, as it is read from the document, has
visited. Faults in single values name no schema, and an endless walk has no last one. -/
def Blames (c : Context) (document : Value) (root : Schema) : Fault → Prop
  | .unknownComponent component =>
    ∃ r name, component = .text name ∧ Walk.VisitsReference c (Walk.start root) r ∧
      c.settings.componentName r.path = .ok name ∧ c.catalogue.find? (.text name) = none
  | .noItems array =>
    ∃ info, Walk.Visits c (Walk.start root) (.bareArray info) ∧ info.name = array ∧
      info.replacement = .null
  | .unsupportedType field kind =>
    ∃ info, Walk.Visits c (Walk.start root) (.unsupported info kind) ∧ info.name = field ∧
      info.replacement = .null ∧
      kind ∉ [.text "string", .text "integer", .text "number", .text "array", .text "object"] ∧
      ∃ place entries, c.StatedIn document (.object entries) ∧
        Schema.read c.settings place (.object entries) = .ok (.unsupported info kind) ∧
        (kind = .null → (Facets.ofEntries entries).find? "properties" = none)
  | .noProperties owner =>
    (∃ info, (Walk.Visits c (Walk.start root) (.bareObject info) ∨
        Walk.Visits c (Walk.start root) (.object info [])) ∧
      info.name = owner ∧ info.replacement = .null) ∨
    ∃ r name component, owner = .text name ∧ Walk.VisitsReference c (Walk.start root) r ∧
      c.settings.componentName r.path = .ok name ∧ c.Names r component ∧
      component.isReference = false ∧
      ∀ info properties, component = .object info properties → properties = []
  | _ => True

variable {c : Context} {document : Value} {root : Schema} {fault : Fault}

/-- A fault in a single value names no schema. -/
theorem blames_of_not_isOfSchema (h : fault.isOfSchema = false) : c.Blames document root fault := by
  cases fault with
  | noItems | noProperties | unknownComponent | unsupportedType => cases h
  | _ => trivial

/-- Why a component cannot be expanded. -/
theorem blames_of_content {r : Reference} (hvisits : Walk.VisitsReference c (Walk.start root) r)
    (h : c.content r = .error fault) : c.Blames document root fault := by
  rw [content_eq] at h
  rcases bind_eq_error.mp h with h | ⟨component, hresolve, h⟩
  · -- The component is not there, or it cannot be read.
    rcases bind_eq_error.mp h with h | ⟨name, hname, h⟩
    · exact blames_of_not_isOfSchema (c.settings.blameless_componentName _ fault h)
    · cases hfind : c.catalogue.find? (.text name) with
      | none =>
        rw [hfind] at h
        cases h
        exact ⟨r, name, rfl, hvisits, hname, hfind⟩
      | some v =>
        rw [hfind] at h
        exact blames_of_not_isOfSchema (Schema.blameless_read _ _ _ fault h)
  · -- It is neither a reference nor an object with properties.
    cases hcontent : component.content? with
    | some content =>
      rw [hcontent] at h
      cases h
    | none =>
      rw [hcontent] at h
      rcases bind_eq_error.mp h with h | ⟨name, hname, h⟩
      · exact blames_of_not_isOfSchema (c.settings.blameless_componentName _ fault h)
      · cases h
        refine .inr ⟨r, name, component, rfl, hvisits, hname, resolve_eq_ok.mp hresolve, ?_, ?_⟩
        -- Its content would not be missing if it were one of the two.
        · cases component with
          | reference info target => cases hcontent
          | _ => rfl
        · rintro info properties rfl
          cases properties with
          | nil => rfl
          | cons first rest => cases hcontent

end Context

/-- A schema that is no reference fails for its definition, which then has no replacement, or for a
replacement that is no text. -/
theorem Info.expr_eq_error {info : Info} {definition : Except Fault (List Rule → Expr)}
    {fault : Fault} (h : info.expr definition = .error fault) :
    (info.replacement = .null ∧ definition = .error fault) ∨ fault = .textExpected := by
  by_cases hnull : info.replacement = .null
  · rw [expr_of_null hnull] at h
    exact .inl ⟨hnull, map_eq_error.mp h⟩
  · by_cases htext : ∃ code, info.replacement = .text code
    · obtain ⟨code, hcode⟩ := htext
      rw [expr_of_text hcode] at h
      cases h
    · rw [expr_of_other hnull fun code hcode => htext ⟨code, hcode⟩] at h
      cases h
      exact .inr rfl

namespace Context

variable {c : Context} {document : Value} {root : Schema} {fault : Fault}

/-- Why the expression of a schema is a fault in one step. -/
theorem blames_of_expr {place : Place}
    (hread : Schema.read c.settings place document = .ok root) {schema : Schema}
    {stack : Walk.Stack .expr} (hvisits : Walk.Visits c (Walk.start root) schema)
    (hstep : Walk.step c (.call (.expr schema) stack) = .ended (.error fault)) :
    c.Blames document root fault := by
  -- Of an array and of an object with properties, only the replacement is looked at in one step.
  cases schema with
  | reference info target => cases hstep
  | string info formats pattern members =>
    -- Rules fail for single values, and so does a replacement that is no text.
    rcases Info.expr_eq_error (Walk.back_eq_ended hstep) with ⟨_, hdefinition⟩ | rfl
    · have hrules := map_eq_error.mp hdefinition
      exact blames_of_not_isOfSchema (blameless_stringConstraints _ _ _ fault hrules)
    · trivial
  | number info whole minimum maximum =>
    rcases Info.expr_eq_error (Walk.back_eq_ended hstep) with ⟨_, hdefinition⟩ | rfl
    · have hrules := map_eq_error.mp hdefinition
      exact blames_of_not_isOfSchema (blameless_numberConstraints _ _ _ fault hrules)
    · trivial
  | array info items =>
    -- Without a replacement the walk goes on to the items, and does not end here.
    simp only [Walk.step] at hstep
    split at hstep
    · cases hstep
    · rcases Info.expr_eq_error (Walk.back_eq_ended hstep) with ⟨hnull, _⟩ | rfl
      · contradiction
      · trivial
  | bareArray info =>
    rcases Info.expr_eq_error (Walk.back_eq_ended hstep) with ⟨hnull, hdefinition⟩ | rfl
    · cases hdefinition
      exact ⟨info, hvisits, rfl, hnull⟩
    · trivial
  | object info properties =>
    cases properties with
    | nil =>
      rcases Info.expr_eq_error (Walk.back_eq_ended hstep) with ⟨hnull, hdefinition⟩ | rfl
      · cases hdefinition
        exact .inl ⟨info, .inr hvisits, rfl, hnull⟩
      · trivial
    | cons first rest =>
      simp only [Walk.step] at hstep
      split at hstep
      · cases hstep
      · rcases Info.expr_eq_error (Walk.back_eq_ended hstep) with ⟨hnull, _⟩ | rfl
        · contradiction
        · trivial
  | bareObject info =>
    rcases Info.expr_eq_error (Walk.back_eq_ended hstep) with ⟨hnull, hdefinition⟩ | rfl
    · cases hdefinition
      exact .inl ⟨info, .inl hvisits, rfl, hnull⟩
    · trivial
  | unsupported info kind =>
    rcases Info.expr_eq_error (Walk.back_eq_ended hstep) with ⟨hnull, hdefinition⟩ | rfl
    · cases hdefinition
      -- What is blamed stands somewhere in the document or in the catalogue, with this type.
      obtain ⟨inner, v, hv, hinner⟩ := hvisits.visitable.exists_read hread
      obtain ⟨entries, own, rfl, _, hform⟩ := Schema.form_of_read hinner
      cases hform with
      | unsupported _ htype =>
        obtain ⟨hkind, hproperties⟩ := Facets.type_eq_other htype
        exact ⟨_, hvisits, rfl, hnull, hkind, inner, entries, hv, hinner, hproperties⟩
    · trivial

/-- A schema that is read from a document and compiled visits only what hangs together with it, and
whatever a fault blames has been visited and has the fault. -/
theorem blames_of_text (c : Context) (place : Place) (document : Value) (root : Schema)
    (hread : Schema.read c.settings place document = .ok root) :
    (∀ schema, Walk.Visits c (Walk.start root) schema → c.Visitable root schema) ∧
    (∀ r, Walk.VisitsReference c (Walk.start root) r →
      ∃ info, c.Visitable root (.reference info r)) ∧
    ∀ fault, c.text root = .error fault → c.Blames document root fault := by
  refine ⟨fun schema h => h.visitable, fun r h => h.visitable, fun fault hfault => ?_⟩
  by_cases hendless : fault = .endlessReference
  · rw [hendless]
    trivial
  -- A fault other than that of the limit is one with which the walk ends.
  · have houtcome : (Walk.Task.fields root).outcome c c.catalogue.size = .error fault :=
      map_eq_error.mp hfault
    have hsettles : Settles ((Walk.Task.fields root).outcome c c.catalogue.size) := by
      rw [houtcome]
      exact settles_error.mpr hendless
    have hends := Walk.endsWith_outcome (.fields root) hsettles
    rw [houtcome] at hends
    cases Walk.failsAt_of_endsWith (fun other h => by cases h) hends with
    | expr hvisits hstep => exact blames_of_expr hread hvisits hstep
    | component hvisits hcontent => exact blames_of_content hvisits hcontent
    | key hkey => exact blames_of_not_isOfSchema (FieldName.blameless_key _ fault hkey)

end Context

/-! ## A shelf -/

/-- The document of a schema that refers to the shelf. -/
def shelfReference : Value := .object [("$ref", .text "#/components/schemas/Shelf")]

/-- A catalogue with a shelf of books, whose items state a description and no type. -/
def shelf : Context where
  settings := {}
  catalogue := .ofList
    [(.text "Shelf", .object [("properties", .object
      [("books", .object
        [("type", .text "array"),
         ("items", .object [("description", .text "a book")])])])])]

/-- What a reference to the shelf blames: the items of the books. -/
theorem Context.blames_of_text_shelf :
    ∃ root, Schema.read shelf.settings { path := .text "#" } shelfReference = .ok root ∧
      shelf.text root = .error (.unsupportedType .null .null) ∧
      shelf.Blames shelfReference root (.unsupportedType .null .null) := by
  obtain ⟨root, hread⟩ :
      ∃ root, Schema.read shelf.settings { path := .text "#" } shelfReference = .ok root := by
    decide +kernel
  have hfault : ∀ root, Schema.read shelf.settings { path := .text "#" } shelfReference =
      .ok root → shelf.text root = .error (.unsupportedType .null .null) := by
    decide +kernel
  exact ⟨root, hread, hfault root hread,
    (Context.blames_of_text shelf { path := .text "#" } shelfReference root hread).2.2 _
      (hfault root hread)⟩

end RouteRules
