import RouteRules.Proofs.Route.Output
import RouteRules.Proofs.Walk.Visits

/-!
# What matters of a catalogue

A route is compiled in a number of walks: one for each parameter, in order, and one for the body. Of
the catalogue, only the components that these walks come to matter. So a larger catalogue can make
one difference only: that a component is found which was missing.

## Main definitions

- `Context.RouteVisits`, `Context.ComesTo`: the components that compiling a route comes to.

## Main statements

- `Context.groupFields_congr`: catalogues that agree there give the same groups.
- `Context.unknownComponent_of_visits`: a visit to a missing component is the end.
- `compileRoute_catalogue`: what matters of a catalogue to a route, and what a larger one changes.
-/

namespace RouteRules

/-! ## What a route comes to -/

/-- The walks of a route, each at its beginning. -/
def Route.walks (route : Route) : List Walk.State :=
  route.parameters.map (fun p => Walk.start p.schema) ++
    route.body.toList.map fun schema => .call (Walk.memberTask schema) .done

namespace Context

/-- Compiling the route comes to a component of this name, whether the catalogue has it or not. -/
inductive RouteVisits (c : Context) (route : Route) (name : String) : Prop where
  /-- On the way through a parameter, if those before it compile. -/
  | parameter {before after : List Parameter} {p : Parameter} :
      route.parameters = before ++ p :: after →
      (∀ q ∈ before, ∃ r, c.parameterFields q = .ok r) →
      Walk.VisitsName c (Walk.start p.schema) name → RouteVisits c route name
  /-- On the way through the body, if all parameters compile. -/
  | body {schema : Schema} :
      (∀ q ∈ route.parameters, ∃ r, c.parameterFields q = .ok r) → route.body = some schema →
      Walk.VisitsName c (.call (Walk.memberTask schema) .done) name → RouteVisits c route name

theorem RouteVisits.exists_walk {c : Context} {route : Route} {name : String}
    (h : c.RouteVisits route name) : ∃ s ∈ route.walks, Walk.VisitsName c s name := by
  unfold Route.walks
  -- The conditions on what compiles before are dropped; only the walk is kept.
  cases h with
  | @parameter before after p hroute hbefore hname =>
    refine ⟨_, List.mem_append_left _ (List.mem_map_of_mem (a := p) ?_), hname⟩
    rw [hroute]
    exact List.mem_append_right _ (List.mem_cons_self ..)
  | body hparameters hroute hname =>
    rw [hroute]
    exact ⟨_, List.mem_append_right _ (List.mem_singleton_self _), hname⟩

/-- Compiling the route that a value states comes to a component of this name. -/
def ComesTo (c : Context) (operation : Value) (name : String) : Prop :=
  ∃ route, Route.read c.settings operation = .ok route ∧ c.RouteVisits route name

/-! ## Catalogues that agree -/

section Agreement

variable {s : Settings} {R R' : Catalogue} {route : Route}

/-- Of a catalogue, the component of a reference matters to what the reference finds. -/
theorem content_eq_of_find? {r : Reference}
    (h : ∀ name, s.componentName r.path = .ok name → R.find? (.text name) = R'.find? (.text name)) :
    (Context.mk s R).content r = (Context.mk s R').content r := by
  rw [content_eq, content_eq]
  unfold resolve
  -- A reference without a name is at fault before the catalogue is looked at.
  cases hname : s.componentName r.path with
  | error fault => rfl
  | ok name => simp only [ok_bind, h name hname]

theorem outcome_eq_of_find? (task : Walk.Task .fields)
    (h : ∀ name, Walk.VisitsName ⟨s, R⟩ (.call task .done) name →
      R.find? (.text name) = R'.find? (.text name)) :
    task.outcome ⟨s, R⟩ R.size = task.outcome ⟨s, R'⟩ R'.size := by
  apply Walk.outcome_congr (c := ⟨s, R⟩) (d := ⟨s, R'⟩) task
  intro r hr
  exact content_eq_of_find? fun name hname => h name ⟨r, hr, hname⟩

/-- Catalogues that agree on what a route comes to give the same groups. -/
theorem groupFields_congr
    (h : ∀ name, (Context.mk s R).RouteVisits route name →
      R.find? (.text name) = R'.find? (.text name)) :
    (Context.mk s R).groupFields route = (Context.mk s R').groupFields route := by
  -- A parameter behind a faulty one is not compiled, and nothing is known of what it would come to.
  have hparameters : route.parameters.mapM (Context.mk s R).parameterFields =
      route.parameters.mapM (Context.mk s R').parameterFields := by
    apply mapM_congr_of_before
    intro before p after hroute hbefore
    have hfields : (Context.mk s R).fields p.schema = (Context.mk s R').fields p.schema :=
      outcome_eq_of_find? (.fields p.schema) fun name hname =>
        h name (.parameter hroute hbefore hname)
    unfold parameterFields
    rw [hfields]
  unfold groupFields
  rw [← hparameters]
  cases hcompiled : route.parameters.mapM (Context.mk s R).parameterFields with
  | error fault => rfl
  | ok compiled =>
    -- The body is compiled only now, so what it comes to may be taken to agree.
    have hbody :
        (Context.mk s R).bodyFields route.body = (Context.mk s R').bodyFields route.body := by
      cases hroute : route.body with
      | none => rfl
      | some schema =>
        have houtcome := outcome_eq_of_find? (Walk.memberTask schema) fun name hname =>
          h name (.body (fun q hq => exists_of_mapM_eq_ok hcompiled hq) hroute hname)
        exact (Walk.outcome_memberTask ⟨s, R⟩ schema).symm.trans
          (houtcome.trans (Walk.outcome_memberTask ⟨s, R'⟩ schema))
    rw [ok_bind, ok_bind, hbody]

end Agreement

/-! ## Missing components -/

section Missing

variable {c : Context} {route : Route}

/-- A walk that visits a missing component comes to nothing else. -/
theorem outcome_of_missing (task : Walk.Task .fields) {name : String}
    (h : Walk.VisitsName c (.call task .done) name)
    (hnone : c.catalogue.find? (.text name) = none) :
    task.outcome c c.catalogue.size = .error (.unknownComponent (.text name)) := by
  obtain ⟨r, hr, hname⟩ := h
  have hcontent : c.content r = .error (.unknownComponent (.text name)) := by
    rw [content_eq, resolve, hname, ok_bind, hnone]
    rfl
  exact Walk.outcome_eq_of_endsWith task (Nat.le_refl _) (hr.endsWith hcontent)

/-- A route that comes to a missing component fails, and blames it. -/
theorem unknownComponent_of_visits {name : String} (h : c.RouteVisits route name)
    (hnone : c.catalogue.find? (.text name) = none) :
    c.groupFields route = .error (.unknownComponent (.text name)) := by
  cases h with
  -- All that comes before compiles, so this is the first fault there is.
  | @parameter before after p hroute hbefore hname =>
    have hp : c.parameterFields p = .error (.unknownComponent (.text name)) := by
      have hfields : c.fields p.schema = _ := outcome_of_missing (.fields p.schema) hname hnone
      rw [parameterFields, hfields, error_bind]
    rw [groupFields, mapM_eq_error.mpr ⟨before, p, after, hroute, hbefore, hp⟩, error_bind]
  | @body schema hparameters hroute hname =>
    obtain ⟨compiled, hcompiled⟩ := exists_mapM_eq_ok hparameters
    have hbody : c.bodyFields route.body = .error (.unknownComponent (.text name)) := by
      rw [hroute, bodyFields, ← Walk.outcome_memberTask]
      exact outcome_of_missing _ hname hnone
    rw [groupFields, hcompiled, ok_bind, hbody, error_bind]

end Missing

/-! ## Values that state no route -/

theorem compileRoute_scalar (x : Scalar) :
    ∃ fault, ∀ c : Context, c.compileRoute (.scalar x) = .error fault := by
  cases x with
  | null => exact ⟨.noRoute, fun c => rfl⟩
  | _ => exact ⟨.noFields, fun c => rfl⟩

theorem compileRoute_list (c : Context) (items : List Value) :
    c.compileRoute (.list items) = .error .noFields := rfl

/-! ## Routes -/

section Routes

variable {s : Settings} {R R' : Catalogue} {operation : Value}

/-- Catalogues that agree on what a route comes to compile it in the same way. -/
theorem compileRoute_eq_of_find?
    (h : ∀ name, (Context.mk s R).ComesTo operation name →
      R.find? (.text name) = R'.find? (.text name)) :
    (Context.mk s R).compileRoute operation = (Context.mk s R').compileRoute operation := by
  cases operation with
  | object entries =>
    rw [compileRoute_object, compileRoute_object]
    cases hread : Route.read s (.object entries) with
    | error fault => rw [error_bind, error_bind]
    | ok route =>
      have hgroups := groupFields_congr fun name hname => h name ⟨route, hread, hname⟩
      have htext : (Context.mk s R).groupText = (Context.mk s R').groupText := rfl
      rw [ok_bind, ok_bind, hgroups, htext]
  -- What is no object is at fault without a look at the catalogue.
  | scalar x =>
    obtain ⟨fault, hfault⟩ := compileRoute_scalar x
    rw [hfault, hfault]
  | list items => rw [compileRoute_list, compileRoute_list]

/-- A route that does not blame a missing component comes to none. -/
theorem exists_find?_of_comesTo {c : Context} {name : String} (h : c.ComesTo operation name)
    (hknown : c.compileRoute operation ≠ .error (.unknownComponent (.text name))) :
    ∃ v, c.catalogue.find? (.text name) = some v := by
  obtain ⟨route, hread, hvisits⟩ := h
  -- If it were missing, the route would blame it.
  cases hfind : c.catalogue.find? (.text name) with
  | some v => exact ⟨v, rfl⟩
  | none =>
    have hgroups := unknownComponent_of_visits hvisits hfind
    cases operation with
    | object entries =>
      rw [compileRoute_of_read hread, hgroups, map_error] at hknown
      exact absurd rfl hknown
    | _ => cases hread

/-- A catalogue that has all components of another compiles a route in the same way, unless a
component was missing. -/
theorem compileRoute_eq_of_extends
    (h : ∀ name v, R.find? (.text name) = some v → R'.find? (.text name) = some v)
    (hknown : ∀ name, (Context.mk s R).compileRoute operation ≠ .error (.unknownComponent name)) :
    (Context.mk s R).compileRoute operation = (Context.mk s R').compileRoute operation := by
  apply compileRoute_eq_of_find?
  intro name hname
  -- What the route comes to is there, and the larger catalogue has the same under that name.
  obtain ⟨v, hv⟩ := exists_find?_of_comesTo hname (hknown (.text name))
  have hv : R.find? (.text name) = some v := hv
  rw [hv, h name v hv]

end Routes

/-- What matters of a catalogue to a route are the components that compiling the route comes to:
catalogues that agree on them, as to which are there and what they say, give the same groups or the
same fault. So a catalogue that has all components of another gives the same groups, and the same
fault unless a component was missing, whatever else is in it. -/
theorem compileRoute_catalogue (s : Settings) (R R' : Catalogue) (operation : Value) :
    ((∀ name, (Context.mk s R).ComesTo operation name →
        R.find? (.text name) = R'.find? (.text name)) →
      (Context.mk s R).compileRoute operation = (Context.mk s R').compileRoute operation) ∧
    ((∀ name v, R.find? (.text name) = some v → R'.find? (.text name) = some v) →
      (∀ groups, (Context.mk s R).compileRoute operation = .ok groups →
        (Context.mk s R').compileRoute operation = .ok groups) ∧
      ∀ fault, (Context.mk s R).compileRoute operation = .error fault →
        (∀ name, fault ≠ .unknownComponent name) →
        (Context.mk s R').compileRoute operation = .error fault) := by
  refine ⟨compileRoute_eq_of_find?, fun hextends => ⟨fun groups hgroups => ?_, ?_⟩⟩
  · rw [← compileRoute_eq_of_extends hextends (by simp [hgroups]), hgroups]
  · intro fault hfault hknown
    rw [← compileRoute_eq_of_extends hextends (by simpa [hfault] using hknown), hfault]

/-- The components of the household, and one more that cannot be expanded. -/
def hauntedHousehold : Catalogue :=
  ⟨(.text "Ghost", .list []) :: household.catalogue.entries⟩

theorem find?_hauntedHousehold {name : String} (h : name ≠ "Ghost") :
    household.catalogue.find? (.text name) = hauntedHousehold.find? (.text name) := by
  have hkey : (Key.text name == Key.text "Ghost") = false := by
    apply Bool.eq_false_iff.mpr
    intro hbeq
    exact h (Key.text_injective ((Key.text_beq_iff name _).mp hbeq)).symm
  simp only [hauntedHousehold, Table.find?, List.lookup_cons, hkey]

/-- An array that does not say what its items are, in the place of the visitor's name. -/
def visitorList : Value :=
  .object [("name", .text "visitor"), ("in", .text "query"), ("type", .text "array")]

theorem compileRoute_catalogue_visit :
    (∀ name, household.ComesTo (.object (visit [visitor])) name →
      household.catalogue.find? (.text name) = hauntedHousehold.find? (.text name)) ∧
    household.compileRoute (.object (visit [visitor])) =
      (Context.mk {} hauntedHousehold).compileRoute (.object (visit [visitor])) ∧
    (∀ name v, household.catalogue.find? (.text name) = some v →
      hauntedHousehold.find? (.text name) = some v) ∧
    (∃ groups, household.compileRoute (.object (visit [visitor])) = .ok groups ∧
      (Context.mk {} hauntedHousehold).compileRoute (.object (visit [visitor])) = .ok groups) ∧
    household.compileRoute (.object (visit [visitorList])) =
      .error (.noItems (.text "visitor")) ∧
    (Context.mk {} hauntedHousehold).compileRoute (.object (visit [visitorList])) =
      .error (.noItems (.text "visitor")) := by
  -- The walks of the route have ended, and there is no ghost on the way.
  have htrails : ∀ route, Route.read {} (.object (visit [visitor])) = .ok route →
      ∀ s ∈ route.walks, (Walk.run household 60 s).hasEnded = true ∧
        ∀ r ∈ Walk.trail household 60 s,
          household.settings.componentName r.path ≠ .ok "Ghost" := by
    decide +kernel
  -- On all other names the two catalogues agree.
  have hagree : ∀ name, household.ComesTo (.object (visit [visitor])) name →
      household.catalogue.find? (.text name) = hauntedHousehold.find? (.text name) := by
    rintro name ⟨route, hread, hvisits⟩
    obtain ⟨s, hs, r, hr, hname⟩ := hvisits.exists_walk
    obtain ⟨hended, htrail⟩ := htrails route hread s hs
    apply find?_hauntedHousehold
    rintro rfl
    exact htrail r (Walk.mem_trail hended hr) hname
  have hextends : ∀ name v, household.catalogue.find? (.text name) = some v →
      hauntedHousehold.find? (.text name) = some v := by
    intro name v hv
    have hne : name ≠ "Ghost" := by
      rintro rfl
      have hnone : household.catalogue.find? (.text "Ghost") = none := rfl
      rw [hnone] at hv
      cases hv
    rw [← find?_hauntedHousehold hne, hv]
  obtain ⟨groups, hgroups⟩ : ∃ groups,
      household.compileRoute (.object (visit [visitor])) = .ok groups := by
    decide +kernel
  have hlist : household.compileRoute (.object (visit [visitorList])) =
      .error (.noItems (.text "visitor")) := by
    decide +kernel
  obtain ⟨hsame, _⟩ := compileRoute_catalogue {} household.catalogue hauntedHousehold
    (.object (visit [visitor]))
  obtain ⟨_, hlarger⟩ := compileRoute_catalogue {} household.catalogue hauntedHousehold
    (.object (visit [visitor]))
  obtain ⟨_, hlarger'⟩ := compileRoute_catalogue {} household.catalogue hauntedHousehold
    (.object (visit [visitorList]))
  exact ⟨hagree, hsame hagree, hextends, ⟨groups, hgroups, (hlarger hextends).1 groups hgroups⟩,
    hlist, (hlarger' hextends).2 _ hlist nofun⟩

end Context

end RouteRules
