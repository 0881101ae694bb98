import Mathlib.Logic.Function.Iterate
import RouteRules.Proofs.Settling

/-!
# The walk of a compilation

Compilation walks through a schema and, at each reference, through the component that it names. The
walk is given here as a machine that makes one step after the other, with no limit on how deep it
goes: depth first, left to right, up to the first fault.

## Main definitions

- `Walk.Task`, `Walk.Stack`, `Walk.State`: what is done now, and what is still to be done.
- `Walk.step`, `Walk.run`: one step, and a number of steps.
- `Walk.NeverEnds`, `Walk.Reenters`: walks that go on forever, and walks that come to a component
  that is still open.

## Main statements

- `Walk.run_ended`: a walk that has ended does not change any more.
- `Walk.length_names_run_le`: a walk opens at most one component with each step.
-/

namespace RouteRules

namespace Walk

/-! ## States -/

/-- What a part of the walk comes back with. -/
inductive Kind where
  | expr
  | fields

/-- The results of a kind. -/
abbrev Kind.Result : Kind → Type
  | .expr => Expr
  | .fields => List Field

/-- A part of the walk. -/
inductive Task : Kind → Type where
  /-- A schema as fields of the enclosing object. -/
  | fields (schema : Schema) : Task .fields
  /-- A schema as an expression. -/
  | expr (schema : Schema) : Task .expr
  /-- The fields of schemas, one after the other. -/
  | each (schemas : List Schema) : Task .fields
  /-- The fields of the component that a reference names. -/
  | component (r : Reference) : Task .fields

/-- What is still to be done with a result. -/
inductive Stack : Kind → Type where
  | done : Stack .fields
  /-- The expression is the value of the field that `info` names. -/
  | key (info : Info) (below : Stack .fields) : Stack .expr
  /-- The expression is that of the items of an array. -/
  | array (modifiers : List Rule) (below : Stack .expr) : Stack .expr
  /-- The fields are those of an object. -/
  | object (modifiers : List Rule) (below : Stack .expr) : Stack .fields
  /-- The fields of these schemas come next. -/
  | rest (schemas : List Schema) (below : Stack .fields) : Stack .fields
  /-- These fields come before the result. -/
  | after (own : List Field) (below : Stack .fields) : Stack .fields
  /-- The fields are those of an open component. -/
  | component (r : Reference) (below : Stack .fields) : Stack .fields

/-- A state of the walk. -/
inductive State where
  /-- About to do a task. -/
  | call {k : Kind} (task : Task k) (stack : Stack k)
  /-- Coming back with a result. -/
  | give {k : Kind} (result : k.Result) (stack : Stack k)
  | ended (result : Except Fault (List Field))

/-- Coming back with an outcome; a fault ends the walk. -/
def State.back {k : Kind} (outcome : Except Fault k.Result) (stack : Stack k) : State :=
  match outcome with
  | .ok result => .give result stack
  | .error fault => .ended (.error fault)

/-! ## Steps -/

/-- One step of the walk. -/
def step (c : Context) : State → State
  | .call (.fields (.reference _ target)) stack => .call (.component target) stack
  | .call (.fields schema) stack => .call (.expr schema) (.key schema.info stack)
  | .call (.expr (.reference _ target)) stack => .call (.component target) (.object [] stack)
  | .call (.expr (.array info items)) stack =>
    -- Nothing is walked through under a replacement.
    if info.replacement = .null then .call (.expr items) (.array (info.modifiers true) stack)
    else .back (k := .expr) (info.expr (.error .textExpected)) stack
  | .call (.expr (.object info (first :: rest))) stack =>
    if info.replacement = .null then
      .call (.each (first :: rest)) (.object (info.modifiers true) stack)
    else .back (k := .expr) (info.expr (.error .textExpected)) stack
  -- All other schemas are written without walking any further.
  | .call (.expr schema) stack => .back (k := .expr) (schema.expr fun _ => .ok []) stack
  | .call (.each []) stack => .give (k := .fields) [] stack
  | .call (.each (schema :: rest)) stack => .call (.fields schema) (.rest rest stack)
  | .call (.component r) stack =>
    match c.content r with
    | .error fault => .ended (.error fault)
    | .ok (.alias target) => .call (.component target) (.component r stack)
    | .ok (.properties first rest) => .call (.each (first :: rest)) (.component r stack)
  | .give e (.key info stack) => .back (k := .fields) (info.fields (.ok e)) stack
  | .give e (.array modifiers stack) => .give (k := .expr) (.array e modifiers) stack
  | .give fields (.object modifiers stack) => .give (k := .expr) (.object fields modifiers) stack
  | .give fields (.rest schemas stack) => .call (.each schemas) (.after fields stack)
  | .give fields (.after own stack) => .give (k := .fields) (own ++ fields) stack
  | .give fields (.component _ stack) => .give (k := .fields) fields stack
  | .give fields .done => .ended (.ok fields)
  | .ended result => .ended result

/-- A number of steps of the walk. -/
def run (c : Context) (n : Nat) (s : State) : State := (step c)^[n] s

/-! ## What a step can do -/

/-- The moves of the walk. -/
inductive Move (c : Context) : State → State → Prop where
  | fieldsReference {info : Info} {target : Reference} {stack : Stack .fields} :
      Move c (.call (.fields (.reference info target)) stack) (.call (.component target) stack)
  | fieldsOther {schema : Schema} {stack : Stack .fields} :
      schema.isReference = false →
      Move c (.call (.fields schema) stack) (.call (.expr schema) (.key schema.info stack))
  | exprReference {info : Info} {target : Reference} {stack : Stack .expr} :
      Move c (.call (.expr (.reference info target)) stack)
        (.call (.component target) (.object [] stack))
  | exprArray {info : Info} {items : Schema} {stack : Stack .expr} :
      info.replacement = .null →
      Move c (.call (.expr (.array info items)) stack)
        (.call (.expr items) (.array (info.modifiers true) stack))
  | exprObject {info : Info} {first : Schema} {rest : List Schema} {stack : Stack .expr} :
      info.replacement = .null →
      Move c (.call (.expr (.object info (first :: rest))) stack)
        (.call (.each (first :: rest)) (.object (info.modifiers true) stack))
  /-- The expression is the same whatever references stand for. -/
  | exprWritten {schema : Schema} {outcome : Except Fault Expr} {stack : Stack .expr} :
      (∀ expand, schema.expr expand = outcome) →
      Move c (.call (.expr schema) stack) (.back (k := .expr) outcome stack)
  | eachNil {stack : Stack .fields} :
      Move c (.call (.each []) stack) (.give (k := .fields) [] stack)
  | eachCons {schema : Schema} {rest : List Schema} {stack : Stack .fields} :
      Move c (.call (.each (schema :: rest)) stack) (.call (.fields schema) (.rest rest stack))
  | componentFault {r : Reference} {fault : Fault} {stack : Stack .fields} :
      c.content r = .error fault → Move c (.call (.component r) stack) (.ended (.error fault))
  | componentAlias {r target : Reference} {stack : Stack .fields} :
      c.content r = .ok (.alias target) →
      Move c (.call (.component r) stack) (.call (.component target) (.component r stack))
  | componentProperties {r : Reference} {first : Schema} {rest : List Schema}
      {stack : Stack .fields} :
      c.content r = .ok (.properties first rest) →
      Move c (.call (.component r) stack) (.call (.each (first :: rest)) (.component r stack))
  | giveKey {e : Expr} {info : Info} {stack : Stack .fields} :
      Move c (.give (k := .expr) e (.key info stack))
        (.back (k := .fields) (info.fields (.ok e)) stack)
  | giveArray {e : Expr} {modifiers : List Rule} {stack : Stack .expr} :
      Move c (.give (k := .expr) e (.array modifiers stack))
        (.give (k := .expr) (.array e modifiers) stack)
  | giveObject {fields : List Field} {modifiers : List Rule} {stack : Stack .expr} :
      Move c (.give (k := .fields) fields (.object modifiers stack))
        (.give (k := .expr) (.object fields modifiers) stack)
  | giveRest {fields : List Field} {schemas : List Schema} {stack : Stack .fields} :
      Move c (.give (k := .fields) fields (.rest schemas stack))
        (.call (.each schemas) (.after fields stack))
  | giveAfter {fields own : List Field} {stack : Stack .fields} :
      Move c (.give (k := .fields) fields (.after own stack))
        (.give (k := .fields) (own ++ fields) stack)
  | giveComponent {fields : List Field} {r : Reference} {stack : Stack .fields} :
      Move c (.give (k := .fields) fields (.component r stack)) (.give (k := .fields) fields stack)
  | giveDone {fields : List Field} :
      Move c (.give (k := .fields) fields .done) (.ended (.ok fields))
  | ended {result : Except Fault (List Field)} : Move c (.ended result) (.ended result)

theorem move_expr (c : Context) (schema : Schema) (stack : Stack .expr) :
    Move c (.call (.expr schema) stack) (step c (.call (.expr schema) stack)) := by
  cases schema with
  -- What is inside an array or an object is walked through only if nothing replaces it.
  | reference info target => exact .exprReference
  | array info items =>
    by_cases h : info.replacement = .null
    · simp only [step, if_pos h]
      exact .exprArray h
    · simp only [step, if_neg h]
      exact .exprWritten fun expand => Info.expr_replaced h _
  | object info properties =>
    cases properties with
    | nil => exact .exprWritten fun expand => rfl
    | cons first rest =>
      by_cases h : info.replacement = .null
      · simp only [step, if_pos h]
        exact .exprObject h
      · simp only [step, if_neg h]
        exact .exprWritten fun expand => Info.expr_replaced h _
  | _ => exact .exprWritten fun expand => rfl

/-- Every step is one of the moves. -/
theorem move_step (c : Context) (s : State) : Move c s (step c s) := by
  -- Case by case along the definition: a call moves by its task, a result by the top of the stack.
  cases s with
  | call task stack =>
    cases task with
    | fields schema =>
      cases schema with
      | reference info target => exact .fieldsReference
      | _ => exact .fieldsOther rfl
    | expr schema => exact move_expr c schema stack
    | each schemas =>
      cases schemas with
      | nil => exact .eachNil
      | cons schema rest => exact .eachCons
    | component r =>
      simp only [step]
      split
      · exact .componentFault ‹_›
      · exact .componentAlias ‹_›
      · exact .componentProperties ‹_›
  | give result stack =>
    cases stack with
    | done => exact .giveDone
    | key info below => exact .giveKey
    | array modifiers below => exact .giveArray
    | object modifiers below => exact .giveObject
    | rest schemas below => exact .giveRest
    | after own below => exact .giveAfter
    | component r below => exact .giveComponent
  | ended result => exact .ended

theorem run_add (c : Context) (m n : Nat) (s : State) : run c (m + n) s = run c m (run c n s) :=
  Function.iterate_add_apply (step c) m n s

theorem run_succ (c : Context) (n : Nat) (s : State) : run c (n + 1) s = step c (run c n s) :=
  Function.iterate_succ_apply' (step c) n s

/-- A walk that has ended does not change any more. -/
@[simp] theorem run_ended (c : Context) (n : Nat) (result : Except Fault (List Field)) :
    run c n (.ended result) = .ended result :=
  Function.iterate_fixed rfl n

theorem run_eq_ended_of_le {c : Context} {m n : Nat} {s : State}
    {result : Except Fault (List Field)} (h : run c m s = .ended result) (hmn : m ≤ n) :
    run c n s = .ended result := by
  obtain ⟨d, rfl⟩ := Nat.exists_eq_add_of_le' hmn
  rw [run_add, h, run_ended]

/-- A walk ends in one way only. -/
theorem ended_unique {c : Context} {m n : Nat} {s : State} {x y : Except Fault (List Field)}
    (hx : run c m s = .ended x) (hy : run c n s = .ended y) : x = y := by
  -- The walk that takes fewer steps has not changed since.
  rcases Nat.le_total m n with h | h
  · have := run_eq_ended_of_le hx h
    rw [hy] at this
    cases this
    rfl
  · have := run_eq_ended_of_le hy h
    rw [hx] at this
    cases this
    rfl

/-! ## Reaching a state -/

/-- The walk comes from one state to the other. -/
def Reaches (c : Context) (s t : State) : Prop := ∃ n, run c n s = t

theorem Reaches.refl (c : Context) (s : State) : Reaches c s s := ⟨0, rfl⟩

theorem Reaches.step {c : Context} {s t : State} (h : Reaches c (step c s) t) : Reaches c s t := by
  obtain ⟨n, hn⟩ := h
  exact ⟨n + 1, hn⟩

theorem Reaches.trans {c : Context} {s t u : State} (hst : Reaches c s t) (htu : Reaches c t u) :
    Reaches c s u := by
  obtain ⟨m, rfl⟩ := hst
  obtain ⟨n, rfl⟩ := htu
  exact ⟨n + m, run_add c n m s⟩

/-! ## Open components -/

/-- The names of the components that are open, the innermost first. -/
def Stack.names (c : Context) : {k : Kind} → Stack k → List String
  | _, .done => []
  | _, .key _ below => below.names c
  | _, .array _ below => below.names c
  | _, .object _ below => below.names c
  | _, .rest _ below => below.names c
  | _, .after _ below => below.names c
  | _, .component r below => (c.settings.componentName r.path).toOption.toList ++ below.names c

/-- The names of the components that are open in a state. -/
def State.names (c : Context) : State → List String
  | .call _ stack => stack.names c
  | .give _ stack => stack.names c
  | .ended _ => []

/-- The walk comes to a component that is open already. -/
def State.IsReentry (c : Context) : State → Prop
  | .call (.component r) stack =>
    ∃ name, c.settings.componentName r.path = .ok name ∧ name ∈ stack.names c
  | _ => False

/-! ## Walks -/

/-- The walk that compiles a schema as fields, at its beginning. -/
def start (schema : Schema) : State := .call (.fields schema) .done

/-- The walk goes on forever. -/
def NeverEnds (c : Context) (s : State) : Prop := ∀ n result, run c n s ≠ .ended result

/-- The walk ends with a result. -/
def EndsWith (c : Context) (s : State) (result : Except Fault (List Field)) : Prop :=
  Reaches c s (.ended result)

/-- At some time, the walk comes to a component that is open already. -/
def Reenters (c : Context) (s : State) : Prop := ∃ t, Reaches c s t ∧ t.IsReentry c

theorem length_names_back_le (c : Context) {k : Kind} (outcome : Except Fault k.Result)
    (stack : Stack k) : ((State.back outcome stack).names c).length ≤ (stack.names c).length := by
  cases outcome with
  | ok result => exact Nat.le_refl _
  | error fault => exact Nat.zero_le _

theorem length_names_component_le (c : Context) (r : Reference) (stack : Stack .fields) :
    ((Stack.component r stack).names c).length ≤ (stack.names c).length + 1 := by
  simp only [Stack.names]
  cases c.settings.componentName r.path with
  | ok name => exact Nat.le_refl _
  | error fault => exact Nat.le_succ _

/-- One move opens at most one component. -/
theorem length_names_move_le {c : Context} {s t : State} (h : Move c s t) :
    (t.names c).length ≤ (s.names c).length + 1 := by
  -- Only two moves put a component on the stack; all others leave the names or take some away.
  cases h with
  | exprWritten _ => exact Nat.le_succ_of_le (length_names_back_le c _ _)
  | giveKey => exact Nat.le_succ_of_le (length_names_back_le c _ _)
  | componentFault _ => exact Nat.zero_le _
  | componentAlias _ => exact length_names_component_le c _ _
  | componentProperties _ => exact length_names_component_le c _ _
  | giveComponent =>
    simp only [State.names, Stack.names, List.length_append]
    omega
  | giveDone => exact Nat.zero_le _
  | _ => exact Nat.le_succ _

theorem length_names_run_le (c : Context) (n : Nat) (s : State) :
    ((run c n s).names c).length ≤ (s.names c).length + n := by
  induction n with
  | zero => exact Nat.le_refl _
  | succ n ih =>
    rw [run_succ]
    have := length_names_move_le (move_step c (run c n s))
    omega

end Walk

end RouteRules
