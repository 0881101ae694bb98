import RouteRules.Proofs.Components
import RouteRules.Proofs.Walk.Basic

/-!
# The walk and the compilation with a limit

`Context.expandWithin` compiles components while a limited number of them is open. The walk has no
limit. Where the limit is not what ends the compilation, the walk comes back with the same outcome;
where it is, the walk gets as many components deep as the limit allows, and stands before one more.

## Main definitions

- `Walk.Task.outcome`: the outcome of a task under a limit.
- `Walk.Tracks`: a walk agrees with such an outcome.

## Main statements

- `Walk.tracks_outcome`: every walk agrees with the outcome of its task.
-/

namespace RouteRules

namespace Walk

/-- The outcome of a task while at most `limit` components are opened on the way. -/
def Task.outcome (c : Context) (limit : Nat) : {k : Kind} → Task k → Except Fault k.Result
  | _, .fields schema => schema.fields (c.expandWithin limit)
  | _, .expr schema => schema.expr (c.expandWithin limit)
  | _, .each schemas => Schema.fieldsOfAll (c.expandWithin limit) schemas
  | _, .component r => c.expandWithin limit r

section Equations

variable (c : Context) (limit : Nat)

/-- A schema that is no reference gives its expression under its own key. -/
theorem outcome_fields {schema : Schema} (h : schema.isReference = false) :
    (Task.fields schema).outcome c limit =
      (Task.expr schema).outcome c limit >>= fun e => schema.info.fields (.ok e) := by
  simp only [Task.outcome, Schema.fields_of_not_reference _ h]
  cases schema.expr (c.expandWithin limit) <;> rfl

theorem outcome_each_cons (schema : Schema) (rest : List Schema) :
    (Task.each (schema :: rest)).outcome c limit =
      (Task.fields schema).outcome c limit >>= fun own =>
        (own ++ ·) <$> (Task.each rest).outcome c limit := by
  simp only [Task.outcome, Schema.fieldsOfAll_cons, pure_eq_ok, bind_ok_eq_map]

end Equations

/-- The walk from `s` comes back to `stack` with the outcome `x`. If `x` is the fault of the limit,
the walk comes to one more component, with `depth` components open. -/
structure Tracks (c : Context) (depth : Nat) {k : Kind} (s : State) (x : Except Fault k.Result)
    (stack : Stack k) : Prop where
  settled : Settles x → Reaches c s (.back x stack)
  endless : ¬ Settles x → ∃ (r : Reference) (content : Content) (inner : Stack .fields),
    c.content r = .ok content ∧ (inner.names c).length = depth ∧
      Reaches c s (.call (.component r) inner)

section Rules

variable {c : Context} {depth : Nat} {j k : Kind} {s : State}

theorem Tracks.step {x : Except Fault k.Result} {stack : Stack k}
    (h : Tracks c depth (step c s) x stack) : Tracks c depth s x stack where
  settled hx := (h.settled hx).step
  endless hx := by
    obtain ⟨r, content, inner, hcontent, hdepth, hreach⟩ := h.endless hx
    exact ⟨r, content, inner, hcontent, hdepth, hreach.step⟩

theorem Tracks.back {x : Except Fault k.Result} (hx : Settles x) (stack : Stack k) :
    Tracks c depth (.back x stack) x stack where
  settled _ := .refl c _
  endless h := absurd hx h

/-- A walk for one outcome, followed by a walk for the next. -/
theorem Tracks.bind {x : Except Fault j.Result} {f : j.Result → Except Fault k.Result}
    {inner : Stack j} {stack : Stack k} (hx : Tracks c depth s x inner)
    (hf : ∀ a, x = .ok a → Tracks c depth (.give a inner) (f a) stack) :
    Tracks c depth s (x >>= f) stack := by
  -- A first result is handed on; with a first fault the walk has ended, or has come to the limit.
  cases x with
  | ok a =>
    have hs : Reaches c s (.give a inner) := hx.settled (settles_ok a)
    have ha := hf a rfl
    refine ⟨fun h => hs.trans (ha.settled h), fun h => ?_⟩
    obtain ⟨r, content, deep, hcontent, hdepth, hreach⟩ := ha.endless h
    exact ⟨r, content, deep, hcontent, hdepth, hs.trans hreach⟩
  | error fault =>
    refine ⟨fun h => ?_, fun h => ?_⟩
    · have hs : Reaches c s (.ended (.error fault)) := hx.settled h.of_bind
      exact hs
    · exact hx.endless fun hsettles => h (hsettles.bind fun a ha => by cases ha)

/-- A walk whose result is put into a larger one. -/
theorem Tracks.map {x : Except Fault j.Result} {g : j.Result → k.Result} {inner : Stack j}
    {stack : Stack k} (hx : Tracks c depth s x inner)
    (hg : ∀ a, RouteRules.Walk.step c (.give a inner) = .give (g a) stack) :
    Tracks c depth s (g <$> x) stack := by
  rw [← bind_ok_eq_map]
  refine hx.bind fun a _ => Tracks.step ?_
  rw [hg a]
  exact Tracks.back (settles_ok (g a)) stack

end Rules

section Limit

variable {c : Context} {limit : Nat} {k : Kind}

/-- Wherever it starts, the walk of a task agrees with the outcome of the task. -/
def TracksTask (c : Context) (limit : Nat) (task : Task k) : Prop :=
  ∀ stack : Stack k,
    Tracks c ((stack.names c).length + limit) (.call task stack) (task.outcome c limit) stack

theorem tracks_fields (hc : ∀ r, TracksTask c limit (.component r)) {schema : Schema}
    (hexpr : TracksTask c limit (.expr schema)) : TracksTask c limit (.fields schema) := by
  intro stack
  cases href : schema.isReference with
  | true =>
    cases schema with
    | reference info target => exact Tracks.step (hc target stack)
    | _ => cases href
  | false =>
    have hstep : step c (.call (.fields schema) stack) =
        .call (.expr schema) (.key schema.info stack) := by
      cases schema with
      | reference info target => cases href
      | _ => rfl
    rw [outcome_fields c limit href]
    apply Tracks.step
    rw [hstep]
    -- First the value, then the key: a fault in the value comes first.
    refine (hexpr (.key schema.info stack)).bind fun e _ => Tracks.step ?_
    exact Tracks.back (k := .fields) (schema.info.settles_fields (settles_ok e)) stack

theorem tracks_each (hc : ∀ r, TracksTask c limit (.component r)) {schemas : List Schema}
    (hexpr : ∀ schema ∈ schemas, TracksTask c limit (.expr schema)) :
    TracksTask c limit (.each schemas) := by
  -- On the schemas: the first one while the rest waits, then the rest behind its fields.
  induction schemas with
  | nil => exact fun stack => Tracks.step (Tracks.back (k := .fields) (settles_ok []) stack)
  | cons schema rest ih =>
    intro stack
    have hrest := ih fun other hother => hexpr other (List.mem_cons_of_mem _ hother)
    have hschema := tracks_fields hc (hexpr schema (List.mem_cons_self ..))
    rw [outcome_each_cons]
    refine Tracks.step ((hschema (.rest rest stack)).bind fun own _ => Tracks.step ?_)
    exact (hrest (.after own stack)).map fun fields => rfl

/-- Under a replacement, and where there is nothing inside, an expression is written in one step. -/
theorem tracks_written {schema : Schema} {outcome : Except Fault Expr} {stack : Stack .expr}
    {depth : Nat} (h : ∀ expand, schema.expr expand = outcome) (hsettles : Settles outcome)
    (hstep : step c (.call (.expr schema) stack) = .back (k := .expr) outcome stack) :
    Tracks c depth (.call (.expr schema) stack) ((Task.expr schema).outcome c limit) stack := by
  apply Tracks.step
  rw [hstep]
  simp only [Task.outcome, h]
  exact Tracks.back (k := .expr) hsettles stack

theorem tracks_expr (hc : ∀ r, TracksTask c limit (.component r)) (schema : Schema) :
    TracksTask c limit (.expr schema) := by
  -- On the schema. Each step of the walk is a bind or a map of the outcome, so that the rules above
  -- carry the invariant from the parts to the whole.
  induction schema with
  | reference info target =>
    intro stack
    simp only [Task.outcome, Schema.expr_reference]
    exact Tracks.step ((hc target (.object [] stack)).map fun fields => rfl)
  | array info items ih =>
    intro stack
    by_cases h : info.replacement = .null
    -- Without a replacement, the walk goes into the items and comes back to wrap them.
    · apply Tracks.step
      simp only [Task.outcome, step, if_pos h, Schema.expr, Info.expr_of_null h, Functor.map_map]
      exact (ih (.array (info.modifiers true) stack)).map fun e => rfl
    -- With one, nothing inside is looked at.
    · refine tracks_written (fun expand => Info.expr_replaced h (.error .textExpected)) ?_ ?_
      · exact info.settles_expr (by simp)
      · simp only [step, if_neg h]
  | object info properties ih =>
    intro stack
    cases properties with
    -- An object without properties is replaced or at fault, and nothing is inside it.
    | nil => exact tracks_written (fun expand => rfl) (info.settles_expr (by simp)) rfl
    | cons first rest =>
      by_cases h : info.replacement = .null
      · apply Tracks.step
        simp only [Task.outcome, step, if_pos h, Schema.expr, Info.expr_of_null h, Functor.map_map]
        exact (tracks_each hc ih (.object (info.modifiers true) stack)).map fun fields => rfl
      · refine tracks_written (fun expand => Info.expr_replaced h (.error .textExpected)) ?_ ?_
        · exact info.settles_expr (by simp)
        · simp only [step, if_neg h]
  | string info formats pattern members =>
    intro stack
    -- Rules can fail, but not by the limit.
    refine tracks_written (fun expand => rfl) (info.settles_expr ?_) rfl
    exact ((blameless_stringConstraints _ _ _).map _).settles
  | number info whole minimum maximum =>
    intro stack
    refine tracks_written (fun expand => rfl) (info.settles_expr ?_) rfl
    exact ((blameless_numberConstraints _ _ _).map _).settles
  | bareArray info =>
    exact fun stack => tracks_written (fun expand => rfl) (info.settles_expr (by simp)) rfl
  | bareObject info =>
    exact fun stack => tracks_written (fun expand => rfl) (info.settles_expr (by simp)) rfl
  | unsupported info kind =>
    exact fun stack => tracks_written (fun expand => rfl) (info.settles_expr (by simp)) rfl

/-- A component that is found is one more open component. -/
theorem length_names_component {r : Reference} {content : Content}
    (h : c.content r = .ok content) (stack : Stack .fields) :
    ((Stack.component r stack).names c).length = (stack.names c).length + 1 := by
  obtain ⟨name, hname, -⟩ := Context.name_of_content h
  simp only [Stack.names, hname]
  rfl

/-- The result of a component is handed on when the component closes. -/
theorem Tracks.close {depth : Nat} {s : State} {x : Except Fault (List Field)} {r : Reference}
    {stack : Stack .fields} (h : Tracks (k := .fields) c depth s x (.component r stack)) :
    Tracks (k := .fields) c depth s x stack := by
  rw [← id_map x]
  exact h.map fun fields => rfl

/-- A component that is not found ends the walk, under any limit. -/
theorem tracks_fault {r : Reference} {fault : Fault} (hcontent : c.content r = .error fault)
    (depth : Nat) (stack : Stack .fields) :
    Tracks (k := .fields) c depth (.call (.component r) stack) (.error fault) stack := by
  -- The fault of a component is never that of the limit.
  have hsettles : Settles (.error fault : Except Fault (List Field)) := by
    have hcontent' := c.settles_content r
    simpa [hcontent] using hcontent'
  apply Tracks.step
  simp only [step, hcontent]
  exact Tracks.back (k := .fields) hsettles stack

theorem tracks_component (c : Context) (limit : Nat) (r : Reference) :
    TracksTask c limit (.component r) := by
  -- On the limit, for all references: an open component takes one from it.
  induction limit generalizing r with
  | zero =>
    intro stack
    simp only [Task.outcome, Context.expandWithin]
    cases hcontent : c.content r with
    | error fault => exact tracks_fault hcontent _ stack
    | ok content =>
      -- One component too many: the walk stands before it.
      exact ⟨fun h => absurd rfl h, fun _ => ⟨r, content, stack, hcontent, rfl, .refl c _⟩⟩
  | succ limit ih =>
    intro stack
    simp only [Task.outcome, Context.expandWithin]
    cases hcontent : c.content r with
    | error fault => exact tracks_fault hcontent _ stack
    | ok content =>
      -- The component is open now, and the limit is one less for what is inside it.
      have hdepth : (stack.names c).length + (limit + 1) =
          ((Stack.component r stack).names c).length + limit := by
        rw [length_names_component hcontent]
        omega
      rw [hdepth]
      apply Tracks.step
      rcases content with target | ⟨first, rest⟩
      · simp only [step, hcontent]
        exact (ih target (.component r stack)).close
      · simp only [step, hcontent]
        have heach : TracksTask c limit (.each (first :: rest)) :=
          tracks_each ih fun schema _ => tracks_expr ih schema
        exact (heach (.component r stack)).close

/-- Every walk agrees with the outcome of its task, under any limit. -/
theorem tracks_outcome (c : Context) (limit : Nat) (task : Task k) : TracksTask c limit task := by
  have hc := tracks_component c limit
  cases task with
  | fields schema => exact tracks_fields hc (tracks_expr hc schema)
  | expr schema => exact tracks_expr hc schema
  | each schemas => exact tracks_each hc fun schema _ => tracks_expr hc schema
  | component r => exact hc r

end Limit

end Walk

end RouteRules
