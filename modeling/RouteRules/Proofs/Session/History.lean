import RouteRules.Proofs.Settings
import RouteRules.Session

/-!
# What steps leave behind

The settings and the catalogue that a sequence of steps amounts to, told from the steps alone,
without the state that they go through. A component takes the patches made to its name until
something else is put under that name in the mapping; from then on the mapping and the catalogue go
separate ways.

## Main definitions

- `Settings.after`, `Value.after`, `Catalogue.after`: settings, a component and a catalogue after
  steps.

## Main statements

- `Settings.after_eq`: assignments to the five settings are made in order, and none is refused.
- `Value.after_snoc`: what one more step does to a component.
- `Catalogue.after_insert_patch`: a patch to a name that something was put under might as well not
  be made.
-/

namespace RouteRules

/-! ## Definitions -/

/-- The settings after steps: every assignment is made, in order. -/
def Settings.after (settings : Settings) (steps : List Step) : Settings :=
  steps.foldl (fun s step => match step with
    | .configure assignments => (s.assignAll assignments).1
    | _ => s) settings

/-- Whether the step puts something under the name. -/
def Step.puts (name : Key) : Step → Bool
  | .put other _ => name == .text other
  | _ => false

namespace Value

/-- The schema with a field assigned, if it has fields. -/
def withField (v : Value) (key : String) (content : Value) : Value :=
  (v.assignField key content).toOption.getD v

/-- The schema of the component `name` after a patch to this name. -/
def patched (name : Key) (v : Value) : Step → Value
  | .patch other key content => if name == .text other then v.withField key content else v
  | _ => v

/-- The schema of the component `name` after steps: with the patches to this name, as far as they
come before anything is put under it. -/
def after (name : Key) (v : Value) (steps : List Step) : Value :=
  (steps.takeWhile fun step => !step.puts name).foldl (patched name) v

end Value

/-- The catalogue after steps. Its names stay, and so does their order. -/
def Catalogue.after (catalogue : Catalogue) (steps : List Step) : Catalogue :=
  ⟨catalogue.entries.map fun e => (e.1, e.2.after e.1 steps)⟩

/-! ## Settings -/

/-- The assignments to settings that the step makes. -/
def Step.assignments : Step → List (String × Value)
  | .configure assignments => assignments
  | _ => []

namespace Settings

/-- Assignments to the five settings are all made, and none of them is refused. -/
theorem assignAll_eq {assignments : List (String × Value)} (h : ∀ a ∈ assignments, a.1 ∈ names)
    (s : Settings) :
    s.assignAll assignments = (assignments.foldl (fun s a => s.store a.1 a.2) s, none) :=
  assignAll_eq_foldl (fun a ha => not_mem_reserved (h a ha)) s

theorem after_append (settings : Settings) (steps more : List Step) :
    settings.after (steps ++ more) = (settings.after steps).after more :=
  List.foldl_append

/-- Steps that assign to the five settings only amount to all their assignments, one after the
other. -/
theorem after_eq {steps : List Step} (h : ∀ a ∈ steps.flatMap Step.assignments, a.1 ∈ names)
    (settings : Settings) :
    settings.after steps =
      (steps.flatMap Step.assignments).foldl (fun s a => s.store a.1 a.2) settings := by
  induction steps generalizing settings with
  | nil => rfl
  | cons step rest ih =>
    rw [List.flatMap_cons] at h ⊢
    have hrest := ih fun a ha => h a (List.mem_append_right _ ha)
    rw [List.foldl_append, ← hrest]
    -- Only one kind of step has assignments, and none of these is refused.
    cases step with
    | configure assignments =>
      have hfirst : settings.assignAll assignments =
          (assignments.foldl (fun s a => s.store a.1 a.2) settings, none) :=
        assignAll_eq (fun a ha => h a (List.mem_append_left _ ha)) settings
      show (settings.assignAll assignments).1.after rest = _
      rw [hfirst]
      rfl
    | _ => rfl

end Settings

/-! ## One component -/

namespace Value

variable {name : Key} {v : Value} {steps : List Step}

theorem patched_of_puts {step : Step} (h : step.puts name = true) : v.patched name step = v := by
  cases step with
  | put other schema => rfl
  | _ => cases h

theorem after_cons (name : Key) (v : Value) (step : Step) (steps : List Step) :
    v.after name (step :: steps) =
      if step.puts name = true then v else (v.patched name step).after name steps := by
  unfold after
  rw [List.takeWhile_cons]
  cases step.puts name <;> rfl

/-- Once something was put under the name, no step counts any more. -/
theorem after_append_of_put (h : ∃ step ∈ steps, step.puts name = true) (more : List Step) :
    v.after name (steps ++ more) = v.after name steps := by
  induction steps generalizing v with
  | nil =>
    obtain ⟨step, hstep, _⟩ := h
    cases hstep
  | cons first rest ih =>
    rw [List.cons_append, after_cons, after_cons]
    -- On the steps, until the one that puts something there is met.
    by_cases hfirst : first.puts name = true
    -- The first step already puts something there.
    · rw [if_pos hfirst, if_pos hfirst]
    · rw [if_neg hfirst, if_neg hfirst]
      apply ih
      obtain ⟨step, hstep, hputs⟩ := h
      rcases List.mem_cons.mp hstep with rfl | hstep
      · exact absurd hputs hfirst
      · exact ⟨step, hstep, hputs⟩

/-- Until something is put under the name, all steps count. -/
theorem after_append_of_no_put (h : ∀ step ∈ steps, step.puts name = false) (more : List Step) :
    v.after name (steps ++ more) = (v.after name steps).after name more := by
  -- The schema is general because the steps before have patched it.
  induction steps generalizing v with
  | nil => rfl
  | cons first rest ih =>
    have hfirst : ¬ first.puts name = true := by
      rw [h first (List.mem_cons_self ..)]
      exact Bool.false_ne_true
    rw [List.cons_append, after_cons, after_cons, if_neg hfirst, if_neg hfirst]
    apply ih
    intro step hstep
    exact h step (List.mem_cons_of_mem _ hstep)

theorem after_singleton (name : Key) (v : Value) (step : Step) :
    v.after name [step] = v.patched name step := by
  rw [after_cons]
  split
  · rename_i h
    exact (patched_of_puts h).symm
  · rfl

theorem exists_put_of_not (h : ¬ ∀ step ∈ steps, step.puts name = false) :
    ∃ step ∈ steps, step.puts name = true := by
  by_contra hno
  apply h
  intro step hstep
  apply Bool.eq_false_iff.mpr
  intro hputs
  exact hno ⟨step, hstep, hputs⟩

/-- One more step counts if nothing was put under the name before. -/
theorem after_snoc (name : Key) (v : Value) (steps : List Step) (step : Step) :
    v.after name (steps ++ [step]) =
      if ∀ earlier ∈ steps, earlier.puts name = false then (v.after name steps).patched name step
      else v.after name steps := by
  -- If something was put under the name, the steps that count had come to an end before.
  split
  · rename_i h
    rw [after_append_of_no_put h, after_singleton]
  · rename_i h
    exact after_append_of_put (exists_put_of_not h) _

/-- A step that does nothing to the schema can be left out. -/
theorem after_snoc_of_patched_eq {step : Step} (h : ∀ w : Value, w.patched name step = w) :
    v.after name (steps ++ [step]) = v.after name steps := by
  rw [after_snoc, h, ite_self]

end Value

/-! ## Catalogues -/

namespace Catalogue

variable {catalogue : Catalogue} {steps : List Step}

/-- Neither names nor their order change. -/
theorem keys_after (catalogue : Catalogue) (steps : List Step) :
    (catalogue.after steps).keys = catalogue.keys := by
  simp only [after, Table.keys, List.map_map]
  rfl

theorem after_congr {others : List Step}
    (h : ∀ name (v : Value), v.after name steps = v.after name others) :
    catalogue.after steps = catalogue.after others := by
  simp only [after, h]

/-- What is put into the mapping is not seen in the catalogue. -/
theorem after_put (name : String) (schema : Value) :
    catalogue.after (steps ++ [.put name schema]) = catalogue.after steps := by
  apply after_congr
  intro key v
  exact Value.after_snoc_of_patched_eq fun w => rfl

/-- A patch to a name that something was put under might as well not be made. -/
theorem after_insert_patch {name : String} (h : ∃ schema, Step.put name schema ∈ steps)
    (key : String) (content : Value) (more : List Step) :
    catalogue.after (steps ++ .patch name key content :: more) =
      catalogue.after (steps ++ more) := by
  apply after_congr
  intro component v
  by_cases hput : ∀ step ∈ steps, step.puts component = false
  · -- Nothing was put under this component, so the patch is to another one.
    rw [Value.after_append_of_no_put hput, Value.after_append_of_no_put hput, Value.after_cons]
    obtain ⟨schema, hmem⟩ := h
    have hother : (component == Key.text name) = false := hput _ hmem
    simp only [Step.puts, Bool.false_eq_true, if_false, Value.patched, hother]
  · have hput := Value.exists_put_of_not hput
    rw [Value.after_append_of_put hput, Value.after_append_of_put hput]

end Catalogue

end RouteRules
