import Mathlib.Data.List.Induction
import RouteRules.Proofs.Outcome
import RouteRules.Proofs.Session.History

/-!
# Sessions and their snapshots

A session holds on to the names that the mapping had at the start, and to the schemas that stood
under them. What it compiles against is told by the steps made so far, whatever order they came in.

## Main definitions

- `Session.after`: the state after steps.
- `Session.Follows`: the invariant, which links the addresses in the mapping to those in the
  catalogue.

## Main statements

- `Session.follows_step`: every step keeps the invariant.
- `Session.context_after`: what a session compiles against after steps.
- `Session.compile_eq`: a long session compiles as a fresh one would over its snapshot.
-/

namespace RouteRules

namespace Session

/-! ## Single steps -/

/-- A patch changes the schema that the mapping holds, if it has fields, and nothing else. -/
theorem step_patch (s : Session) (name key : String) (content : Value) :
    ∃ schemas, (s.step (.patch name key content)).1 = { s with schemas } ∧
      schemas.length = s.schemas.length ∧
      ∀ i < s.schemas.length, schemas.getD i .null =
        if s.source.find? (.text name) = some i then (s.schemaAt i).withField key content
        else s.schemaAt i := by
  -- A name that is not in the mapping leaves all schemas as they are.
  cases hfind : s.source.find? (.text name) with
  | none =>
    refine ⟨s.schemas, by simp only [step, patch, hfind], rfl, fun i _ => ?_⟩
    rw [if_neg (by simp)]
    rfl
  | some address =>
    cases hassign : (s.schemaAt address).assignField key content with
    | error fault =>
      -- A schema without fields stays as it is.
      refine ⟨s.schemas, by simp only [step, patch, hfind, hassign, error_bind], rfl, fun i _ => ?_⟩
      by_cases h : address = i
      · subst h
        simp only [if_true, Value.withField, hassign, Except.toOption, Option.getD_none]
        rfl
      · rw [if_neg (by simpa using h)]
        rfl
    | ok schema =>
      refine ⟨s.schemas.set address schema,
        by simp only [step, patch, hfind, hassign, ok_bind, pure_eq_ok], List.length_set ..,
        fun i hi => ?_⟩
      rw [List.getD_eq_getElem?_getD, List.getElem?_set]
      -- Only the schema at this address is another one.
      by_cases h : address = i
      · subst h
        simp only [if_true, hi, Value.withField, hassign, Except.toOption, Option.getD_some]
      · rw [if_neg h, if_neg (by simpa using h), schemaAt, List.getD_eq_getElem?_getD]

/-- A failed step changes nothing, unless it assigns settings. -/
theorem step_eq_of_error {s : Session} {step : Step} {fault : Fault}
    (h : (s.step step).2 = .error fault)
    (hstep : ∀ assignments, step ≠ .configure assignments) : (s.step step).1 = s := by
  cases step with
  | compile route => rfl
  | configure assignments => exact absurd rfl (hstep assignments)
  | put name schema => cases h
  | patch name key content =>
    cases hpatch : s.patch name key content with
    | ok t =>
      simp only [Session.step, hpatch] at h
      cases h
    | error fault => simp only [Session.step, hpatch]
  | name reference => rfl

/-- No step changes which schemas the catalogue holds. -/
theorem step_catalogue (s : Session) (step : Step) : (s.step step).1.catalogue = s.catalogue := by
  cases step with
  | configure assignments =>
    simp only [Session.step]
    split
    · rfl
    · rfl
  | patch name key content =>
    obtain ⟨schemas, hstep, -⟩ := s.step_patch name key content
    rw [hstep]
  | _ => rfl

theorem names_eq_of_reply {s : Session} {step : Step} {names : List Key}
    (h : (s.step step).2 = .ok (.names names)) : names = s.catalogue.keys := by
  have hcatalogue := s.step_catalogue step
  -- Two kinds of steps tell the names: one that puts a schema and a patch that goes through.
  cases step with
  | compile route =>
    obtain ⟨_, _, hreply⟩ := map_eq_ok.mp h
    cases hreply
  | configure assignments =>
    simp only [Session.step] at h
    split at h
    · obtain ⟨_, _, hreply⟩ := map_eq_ok.mp h
      cases hreply
    · cases h
  | put name schema =>
    cases h
    rfl
  | patch name key content =>
    simp only [Session.step] at h hcatalogue
    cases hpatch : s.patch name key content with
    | ok t =>
      rw [hpatch] at h hcatalogue
      cases h
      rw [← hcatalogue]
    | error fault =>
      rw [hpatch] at h
      cases h
  | name reference =>
    obtain ⟨_, _, hreply⟩ := map_eq_ok.mp h
    cases hreply

/-! ## The invariant -/

/-- What holds of a session over `mapping` when the steps `done` have been made. -/
structure Follows (settings : Settings) (mapping : Catalogue) (done : List Step) (s : Session) :
    Prop where
  settings_eq : s.settings = settings.after done
  catalogue_eq : s.catalogue = ⟨mapping.keys.zipIdx⟩
  size_le : mapping.size ≤ s.schemas.length
  /-- The first addresses are those of the components. -/
  schema_eq : ∀ i name v, mapping.entries[i]? = some (name, v) → s.schemaAt i = v.after name done
  /-- The mapping holds the address of a component until something is put under its name. -/
  held_iff : ∀ i name v other, mapping.entries[i]? = some (name, v) →
    (s.source.find? (.text other) = some i ↔
      name = .text other ∧ ∀ step ∈ done, step.puts name = false)

section Steps

variable {settings : Settings} {mapping : Catalogue} {done : List Step} {s : Session}

theorem keys_of_entries {i : Nat} {name : Key} {v : Value}
    (h : mapping.entries[i]? = some (name, v)) : mapping.keys[i]? = some name := by
  rw [Table.keys, List.getElem?_map, h]
  rfl

theorem follows_start (hmapping : mapping.Distinct) :
    Follows settings mapping [] (start settings mapping) where
  settings_eq := rfl
  catalogue_eq := rfl
  size_le := by
    rw [start, List.length_map]
    exact Nat.le_refl _
  schema_eq := by
    intro i name v hentry
    simp only [schemaAt, start, List.getD_eq_getElem?_getD, List.getElem?_map, hentry,
      Option.map_some, Option.getD_some]
    rfl
  held_iff := by
    intro i name v other hentry
    show Table.find? ⟨mapping.keys.zipIdx⟩ (.text other) = some i ↔ _
    rw [hmapping.find?_zipIdx, keys_of_entries hentry]
    simp

/-- The address of a component lies below those of all schemas that are put later. -/
theorem Follows.lt_length (h : Follows settings mapping done s) {i : Nat} {name : Key} {v : Value}
    (hentry : mapping.entries[i]? = some (name, v)) : i < s.schemas.length :=
  Nat.lt_of_lt_of_le (List.getElem?_eq_some_iff.mp hentry).1 h.size_le

/-- A step that neither puts nor patches anything keeps the invariant. -/
theorem Follows.of_quiet (h : Follows settings mapping done s) {step : Step} {t : Session}
    (hputs : ∀ name, step.puts name = false)
    (hpatched : ∀ name (v : Value), v.patched name step = v)
    (hsettings : t.settings = settings.after (done ++ [step]))
    (hcatalogue : t.catalogue = s.catalogue) (hsource : t.source = s.source)
    (hschemas : t.schemas = s.schemas) :
    Follows settings mapping (done ++ [step]) t where
  settings_eq := hsettings
  catalogue_eq := hcatalogue.trans h.catalogue_eq
  size_le := hschemas ▸ h.size_le
  schema_eq := by
    intro i name v hentry
    rw [Value.after_snoc_of_patched_eq (hpatched name), ← h.schema_eq i name v hentry, schemaAt,
      hschemas, schemaAt]
  held_iff := by
    intro i name v other hentry
    rw [hsource, h.held_iff i name v other hentry]
    simp only [List.forall_mem_append, List.forall_mem_singleton, hputs name, and_true]

theorem Follows.put (h : Follows settings mapping done s) (name : String) (schema : Value) :
    Follows settings mapping (done ++ [.put name schema]) (s.put name schema) where
  settings_eq := by
    rw [Session.put, h.settings_eq, Settings.after_append]
    rfl
  catalogue_eq := h.catalogue_eq
  size_le := by
    rw [Session.put, List.length_append]
    exact Nat.le_add_right_of_le h.size_le
  schema_eq := by
    intro i component v hentry
    -- The new schema gets an address of its own, above those of the components.
    rw [Value.after_snoc_of_patched_eq fun w => rfl, ← h.schema_eq i component v hentry]
    simp only [schemaAt, Session.put, List.getD_eq_getElem?_getD,
      List.getElem?_append_left (h.lt_length hentry)]
  held_iff := by
    intro i component v other hentry
    simp only [List.forall_mem_append, List.forall_mem_singleton]
    show (s.source.insert (.text name) s.schemas.length).find? (.text other) = some i ↔ _
    rw [Table.find?_insert]
    by_cases hother : other = name
    · -- The mapping now holds a new address under this name.
      have hlt := h.lt_length hentry
      rw [if_pos hother]
      constructor
      · intro haddress
        cases haddress
        exact absurd hlt (Nat.lt_irrefl _)
      · rintro ⟨rfl, -, hputs⟩
        rw [hother, Step.puts, (Key.beq_text_iff name _).mpr rfl] at hputs
        cases hputs
    · rw [if_neg hother, h.held_iff i component v other hentry]
      constructor
      · rintro ⟨rfl, hputs⟩
        refine ⟨rfl, hputs, ?_⟩
        apply Bool.eq_false_iff.mpr
        intro hput
        exact hother (Key.text_injective ((Key.beq_text_iff name _).mp hput))
      · rintro ⟨hname, hputs, -⟩
        exact ⟨hname, hputs⟩

theorem Follows.patch (h : Follows settings mapping done s) (name key : String) (content : Value) :
    Follows settings mapping (done ++ [.patch name key content])
      (s.step (.patch name key content)).1 := by
  obtain ⟨schemas, hstep, hlength, hschema⟩ := s.step_patch name key content
  rw [hstep]
  constructor
  case settings_eq =>
    show s.settings = _
    rw [h.settings_eq, Settings.after_append]
    rfl
  case catalogue_eq => exact h.catalogue_eq
  case size_le =>
    show mapping.size ≤ schemas.length
    rw [hlength]
    exact h.size_le
  case schema_eq =>
    intro i component v hentry
    -- The mapping holds this very schema exactly if the patch counts.
    have hheld := h.held_iff i component v name hentry
    rw [← Key.beq_text_iff] at hheld
    show schemas.getD i .null = _
    rw [hschema i (h.lt_length hentry), Value.after_snoc, ← h.schema_eq i component v hentry,
      Value.patched]
    by_cases hput : ∀ step ∈ done, step.puts component = false
    -- Shared still: the patch counts if it is to this name.
    · rw [if_pos hput]
      exact if_congr (hheld.trans (and_iff_left hput)) rfl rfl
    -- Apart already: the patch is to another schema.
    · rw [if_neg hput, if_neg fun hfind => hput (hheld.mp hfind).2]
  case held_iff =>
    intro i component v other hentry
    show s.source.find? (.text other) = some i ↔ _
    rw [h.held_iff i component v other hentry]
    simp only [List.forall_mem_append, List.forall_mem_singleton, Step.puts, and_true]

/-- Every step keeps the invariant. -/
theorem follows_step (h : Follows settings mapping done s) (step : Step) :
    Follows settings mapping (done ++ [step]) (s.step step).1 := by
  have hafter : ∀ step, s.settings.after [step] = settings.after (done ++ [step]) := by
    intro step
    rw [Settings.after_append, h.settings_eq]
  -- Compiling and naming change nothing, configuring only the settings, and the other two have
  -- lemmas of their own.
  cases step with
  | compile route =>
    exact h.of_quiet (fun _ => rfl) (fun _ _ => rfl) (hafter (.compile route)) rfl rfl rfl
  | configure assignments =>
    have hstep : (s.step (.configure assignments)).1 =
        { s with settings := (s.settings.assignAll assignments).1 } := by
      simp only [Session.step]
      split
      · rename_i hassign
        rw [hassign]
      · rename_i hassign
        rw [hassign]
    rw [hstep]
    exact h.of_quiet (fun _ => rfl) (fun _ _ => rfl) (hafter (.configure assignments)) rfl rfl rfl
  | put name schema => exact h.put name schema
  | patch name key content => exact h.patch name key content
  | name reference =>
    exact h.of_quiet (fun _ => rfl) (fun _ _ => rfl) (hafter (.name reference)) rfl rfl rfl

/-- What a session compiles against, told by the steps that were made. -/
theorem Follows.context_eq (h : Follows settings mapping done s) :
    s.context = ⟨settings.after done, mapping.after done⟩ := by
  -- Entry by entry, the address of a component leads to its schema as patched.
  have hentries : mapping.keys.zipIdx.map (fun e => (e.1, s.schemaAt e.2)) =
      mapping.entries.map fun e => (e.1, e.2.after e.1 done) := by
    apply List.ext_getElem?
    intro i
    simp only [List.getElem?_map, List.getElem?_zipIdx, Table.keys, Nat.zero_add]
    cases hentry : mapping.entries[i]? with
    | none => rfl
    | some e => simp only [Option.map_some, h.schema_eq i e.1 e.2 hentry]
  rw [context, h.settings_eq, h.catalogue_eq, Table.map, hentries]
  rfl

end Steps

/-! ## Whole runs -/

/-- The state after steps. -/
def after (s : Session) (steps : List Step) : Session :=
  steps.foldl (fun s step => (s.step step).1) s

theorem run_cons (s : Session) (step : Step) (rest : List Step) :
    s.run (step :: rest) = (s.step step).2 :: (s.step step).1.run rest := rfl

theorem run_append (s : Session) (steps more : List Step) :
    s.run (steps ++ more) = s.run steps ++ (s.after steps).run more := by
  induction steps generalizing s with
  | nil => rfl
  | cons step rest ih =>
    rw [List.cons_append, run_cons, run_cons, ih]
    rfl

theorem length_run (s : Session) (steps : List Step) : (s.run steps).length = steps.length := by
  induction steps generalizing s with
  | nil => rfl
  | cons step rest ih =>
    rw [run_cons, List.length_cons, List.length_cons, ih]

/-- A step is answered in the state that the steps before it lead to. -/
theorem getElem?_run (s : Session) (before rest : List Step) (step : Step) :
    (s.run (before ++ step :: rest))[before.length]? = some ((s.after before).step step).2 := by
  -- There is one answer for each step, so this one is the first of those that remain.
  rw [run_append, ← s.length_run before, List.getElem?_append_right (Nat.le_refl _), Nat.sub_self]
  rfl

/-- Every session keeps the invariant. -/
theorem follows_after {settings : Settings} {mapping : Catalogue} (hmapping : mapping.Distinct)
    (steps : List Step) :
    Follows settings mapping steps ((start settings mapping).after steps) := by
  -- The induction is on the last step, since the invariant tells about the steps made so far.
  induction steps using List.reverseRecOn with
  | nil => exact follows_start hmapping
  | append_singleton done step ih =>
    rw [after, List.foldl_append]
    exact follows_step ih step

/-- What a session compiles against after steps. -/
theorem context_after {settings : Settings} {mapping : Catalogue} (hmapping : mapping.Distinct)
    (steps : List Step) :
    ((start settings mapping).after steps).context =
      ⟨settings.after steps, mapping.after steps⟩ :=
  (follows_after hmapping steps).context_eq

/-- Whenever a session tells the names of its catalogue, they are those that it had at first. -/
theorem names_eq {s : Session} {steps : List Step} {names : List Key}
    (h : .ok (.names names) ∈ s.run steps) : names = s.catalogue.keys := by
  -- The session is general because every step leads to another one, with the same catalogue.
  induction steps generalizing s with
  | nil => cases h
  | cons step rest ih =>
    rw [run_cons] at h
    rcases List.mem_cons.mp h with h | h
    · exact names_eq_of_reply h.symm
    · rw [ih h, step_catalogue]

/-! ## Leaving out steps -/

/-- The elements that are marked with `true`. -/
def marked {α : Type} (elements : List (Bool × α)) : List α := (elements.filter (·.1)).map (·.2)

/-- Compilations leave nothing behind: without some of them, the other answers are the same. -/
theorem run_marked {s : Session} {steps : List (Bool × Step)}
    (h : ∀ m ∈ steps, m.1 = false → ∃ route, m.2 = .compile route) :
    s.run (marked steps) = marked ((steps.map (·.1)).zip (s.run (steps.map (·.2)))) := by
  induction steps generalizing s with
  | nil => rfl
  | cons first rest ih =>
    obtain ⟨mark, step⟩ := first
    have hrest : ∀ {t : Session},
        t.run (marked rest) = marked ((rest.map (·.1)).zip (t.run (rest.map (·.2)))) :=
      ih fun m hm => h m (List.mem_cons_of_mem _ hm)
    cases mark with
    | true =>
      show (s.step step).2 :: (s.step step).1.run (marked rest) = _
      rw [hrest]
      rfl
    | false =>
      obtain ⟨route, hroute⟩ := h _ (List.mem_cons_self ..) rfl
      cases hroute
      -- The state after a compilation is the state before it.
      show s.run (marked rest) = _
      rw [hrest]
      rfl

/-! ## The snapshot -/

/-- A long session compiles as a fresh one would over its snapshot.

The snapshot has the settings with all assignments made to them. It has the names of the mapping at
the start, in the same order, each with its schema as patched before something was put under the
name. What is put into the mapping is not compiled, and neither is a later patch to it. A step that
fails leaves no trace, unless it assigns to something else than the five settings, whose assignments
do not fail. Compilations leave no trace in any case. -/
theorem compile_eq (settings : Settings) (mapping : Catalogue) (hmapping : mapping.Distinct) :
    (∀ before route rest,
      ((start settings mapping).run (before ++ .compile route :: rest))[before.length]? =
        some (.groups <$> (Context.mk (settings.after before) (mapping.after before)).compileRoute
          route)) ∧
    (∀ steps, (∀ a ∈ steps.flatMap Step.assignments, a.1 ∈ Settings.names) →
      settings.after steps =
        (steps.flatMap Step.assignments).foldl (fun s a => s.store a.1 a.2) settings) ∧
    (∀ steps, (mapping.after steps).keys = mapping.keys) ∧
    (∀ steps names, .ok (.names names) ∈ (start settings mapping).run steps →
      names = mapping.keys) ∧
    (∀ steps name schema, ((start settings mapping).after (steps ++ [.put name schema])).context =
      ((start settings mapping).after steps).context) ∧
    (∀ steps name schema key content more, .put name schema ∈ steps →
      ((start settings mapping).after (steps ++ .patch name key content :: more)).context =
        ((start settings mapping).after (steps ++ more)).context) ∧
    (∀ steps step fault, (((start settings mapping).after steps).step step).2 = .error fault →
      (∀ assignments, step ≠ .configure assignments) →
      (((start settings mapping).after steps).step step).1 = (start settings mapping).after steps) ∧
    (∀ steps assignments, (∀ a ∈ assignments, a.1 ∈ Settings.names) →
      (((start settings mapping).after steps).settings.assignAll assignments).2 = none) ∧
    (∀ steps : List (Bool × Step), (∀ m ∈ steps, m.1 = false → ∃ route, m.2 = .compile route) →
      (start settings mapping).run (marked steps) =
        marked ((steps.map (·.1)).zip ((start settings mapping).run (steps.map (·.2))))) := by
  refine ⟨fun before route rest => ?_, fun steps h => Settings.after_eq h settings,
    Catalogue.keys_after mapping, fun steps names h => ?_, fun steps name schema => ?_,
    fun steps name schema key content more h => ?_, fun steps step fault => step_eq_of_error,
    fun steps assignments h => ?_, fun steps h => run_marked h⟩
  -- All that is said of a session after steps is said of the context it compiles against.
  · rw [getElem?_run, Session.step, context_after hmapping]
  · rw [names_eq h]
    exact List.zipIdx_map_fst 0 mapping.keys
  · rw [context_after hmapping, context_after hmapping, Settings.after_append, Catalogue.after_put]
    rfl
  · rw [context_after hmapping, context_after hmapping, Settings.after_append,
      Settings.after_append, Catalogue.after_insert_patch ⟨schema, h⟩]
    rfl
  · rw [Settings.assignAll_eq h]

/-- A mapping with one component. -/
def pets : Catalogue :=
  .ofList [(.text "Dog", .object [("properties", .object
    [("age", .object [("type", .text "integer")])])])]

/-- A route with a parameter that refers to this component. -/
def petRoute : Value :=
  .object [("parameters", .list [.object [("name", .text "d"), ("in", .text "query"),
    ("schema", .object [("$ref", .text "#/components/schemas/Dog")])]])]

/-- The group of this route, built on an object of this name. -/
def petGroups (validator : String) : Groups :=
  [(.query, validator ++ ".object().keys(\x7b\n    name: " ++ validator ++ ".string()\n  \x7d)")]

/-- A patch that is seen, and one that is not since another schema was put in between. The route is
compiled twice, each time under the name that was assigned last. -/
def petSteps : List Step :=
  [.configure [("validator_name", .text "Yup"), ("json_content_type", .text "text/json")],
   .patch "Dog" "properties" (.object [("name", .object [("type", .text "string")])]),
   .compile petRoute, .put "Dog" (.object []), .patch "Dog" "properties" .null,
   .configure [("validator_name", .text "Zod")], .compile petRoute]

theorem compile_eq_pets :
    pets.Distinct ∧
      ((start {} pets).run petSteps)[2]? = some (.ok (.groups (petGroups "Yup"))) ∧
      ((start {} pets).run petSteps)[6]? = some (.ok (.groups (petGroups "Zod"))) ∧
      Settings.after {} petSteps = { validator := .text "Zod", bodyType := .text "text/json" } := by
  have hdistinct : pets.Distinct := by decide
  obtain ⟨hcompile, hsettings, _⟩ := compile_eq {} pets hdistinct
  have hfirst : (Context.mk (Settings.after {} (petSteps.take 2))
      (pets.after (petSteps.take 2))).compileRoute petRoute = .ok (petGroups "Yup") := by
    decide +kernel
  have hsecond : (Context.mk (Settings.after {} (petSteps.take 6))
      (pets.after (petSteps.take 6))).compileRoute petRoute = .ok (petGroups "Zod") := by
    decide +kernel
  refine ⟨hdistinct, ?_, ?_, ?_⟩
  · have h := hcompile (petSteps.take 2) petRoute (petSteps.drop 3)
    rw [hfirst] at h
    exact h
  · have h := hcompile (petSteps.take 6) petRoute []
    rw [hsecond] at h
    exact h
  · rw [hsettings petSteps (by decide)]
    rfl

end Session

end RouteRules
