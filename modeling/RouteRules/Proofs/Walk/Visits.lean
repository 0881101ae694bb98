import RouteRules.Proofs.Walk.Termination

/-!
# What a walk visits

The schemas and the components that a walk comes to. Of a catalogue, a walk looks at nothing but the
components that it visits, so walks against two catalogues that agree there are the same walk.

## Main definitions

- `Walk.Visits`, `Walk.VisitsReference`, `Walk.VisitsName`: a walk comes to a schema, to the
  component of a reference, to a component by its name.
- `Walk.trail`: the components that are visited in a number of steps.
- `Walk.memberTask`: the task of a schema that is a group of its own.

## Main statements

- `Walk.run_congr`: two walks that find the same components are the same, step by step.
- `Walk.outcome_congr`: so they have the same outcome, and both end or neither does.
-/

namespace RouteRules

namespace Walk

variable {c d : Context} {s : State}

/-! ## Visits -/

/-- The walk comes to the schema, as a field or as an expression. -/
def Visits (c : Context) (s : State) (schema : Schema) : Prop :=
  (∃ stack, Reaches c s (.call (.fields schema) stack)) ∨
    ∃ stack, Reaches c s (.call (.expr schema) stack)

/-- The walk comes to the component that the reference names. -/
def VisitsReference (c : Context) (s : State) (r : Reference) : Prop :=
  ∃ stack, Reaches c s (.call (.component r) stack)

/-- The walk comes to a component of this name, whether the catalogue has it or not. -/
def VisitsName (c : Context) (s : State) (name : String) : Prop :=
  ∃ r, VisitsReference c s r ∧ c.settings.componentName r.path = .ok name

/-- A component that is visited and cannot be expanded is the end of the walk. -/
theorem VisitsReference.endsWith {r : Reference} {fault : Fault} (h : VisitsReference c s r)
    (hcontent : c.content r = .error fault) : EndsWith c s (.error fault) := by
  obtain ⟨stack, hreach⟩ := h
  apply hreach.trans
  apply Reaches.step
  simp only [step, hcontent]
  exact .refl c _

/-! ## The components on the way -/

/-- The reference whose component the walk has come to. -/
def State.component? : State → Option Reference
  | .call (.component r) _ => some r
  | _ => none

def State.hasEnded : State → Bool
  | .ended _ => true
  | _ => false

/-- The references whose components are visited in a number of steps, in order. -/
def trail (c : Context) : Nat → State → List Reference
  | 0, _ => []
  | n + 1, s => s.component?.toList ++ trail c n (step c s)

/-- When a walk has ended, its trail has all that it visits. -/
theorem mem_trail {n : Nat} {r : Reference} (hended : (run c n s).hasEnded = true)
    (h : VisitsReference c s r) : r ∈ trail c n s := by
  obtain ⟨stack, m, hm⟩ := h
  -- Induction on the steps that are left; the visit is at the first of them or later.
  induction n generalizing s m with
  | zero =>
    cases s with
    | ended result =>
      rw [run_ended] at hm
      cases hm
    | _ => cases hended
  | succ n ih =>
    cases m with
    | zero =>
      have hs : s = .call (.component r) stack := hm
      exact List.mem_append_left _ (by rw [hs]; exact List.mem_singleton_self r)
    | succ m => exact List.mem_append_right _ (ih hended m hm)

/-! ## Two walks -/

/-- A step looks at a component only where it comes to it. -/
theorem step_congr {t : State}
    (h : ∀ r stack, t = .call (.component r) stack → c.content r = d.content r) :
    step c t = step d t := by
  -- Every other state moves by its own shape.
  cases t with
  | call task stack =>
    cases task with
    | component r => simp only [step, h r stack rfl]
    | each schemas => cases schemas <;> rfl
    | fields schema => cases schema <;> rfl
    | expr schema =>
      cases schema with
      | object info properties => cases properties <;> rfl
      | _ => rfl
  | give result stack => cases stack <;> rfl
  | ended result => rfl

/-- Walks that find the same components are the same at every time. -/
theorem run_congr (h : ∀ r, VisitsReference c s r → c.content r = d.content r) (n : Nat) :
    run c n s = run d n s := by
  induction n with
  | zero => rfl
  | succ n ih =>
    rw [run_succ, run_succ, ← ih]
    -- Where the walk has come to a component, it visits it, so both find the same content.
    apply step_congr
    intro r stack ht
    exact h r ⟨stack, n, ht⟩

/-- Walks that find the same components have the same outcome. Neither catalogue has to be as large
as the other. -/
theorem outcome_congr (task : Task .fields)
    (h : ∀ r, VisitsReference c (.call task .done) r → c.content r = d.content r) :
    task.outcome c c.catalogue.size = task.outcome d d.catalogue.size := by
  by_cases hsettles : Settles (task.outcome c c.catalogue.size)
  · obtain ⟨n, hn⟩ := endsWith_outcome task hsettles
    rw [run_congr h] at hn
    exact (outcome_eq_of_endsWith task (Nat.le_refl _) ⟨n, hn⟩).symm
  -- The first walk never ends, so the second one does not end either.
  · have hnever : NeverEnds d (.call task .done) := by
      intro n result hn
      rw [← run_congr h] at hn
      exact (neverEnds_iff_not_settles task (Nat.le_refl _)).mpr hsettles n result hn
    have hother := (neverEnds_iff_not_settles task (Nat.le_refl _)).mp hnever
    rw [not_settles_iff.mp hsettles, not_settles_iff.mp hother]

/-! ## Groups of their own -/

/-- The task of a schema that is a group of its own: the properties of an object are the fields of
the group. -/
def memberTask : Schema → Task .fields
  | .object info (first :: rest) =>
    if info.replacement = .null then .each (first :: rest)
    else .fields (.object info (first :: rest))
  | schema => .fields schema

theorem outcome_memberTask (c : Context) (schema : Schema) :
    (memberTask schema).outcome c c.catalogue.size = c.memberFields schema := by
  unfold memberTask Context.memberFields
  split
  -- An object with properties: a group of its own, unless it is replaced.
  · rename_i info first rest
    split
    · rename_i hnull
      exact (Schema.memberFields_object c.expand hnull (List.cons_ne_nil _ _)).symm
    · rename_i hreplaced
      rw [Schema.memberFields_eq_fields]
      · rfl
      · rintro own head tail ⟨⟩
        exact hreplaced
  -- Any other schema is a field.
  · rename_i hother
    rw [Schema.memberFields_eq_fields]
    · rfl
    · intro info first rest h
      exact absurd h (hother info first rest)

end Walk

end RouteRules
