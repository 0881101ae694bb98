import Mathlib.Logic.Relation
import RouteRules.Proofs.Schema.References
import RouteRules.Proofs.Walk.Termination

/-!
# Cycles of references

Components refer to one another. A walk goes from a component only to those that it refers to, so a
walk that comes back to an open component has gone round a cycle of references.

## Main definitions

- `Context.RefersTo`: a component refers to another.
- `Context.Acyclic`: no component that can be reached from a schema refers back to itself.

## Main statements

- `Walk.grounded_run`: what is walked stands in the schema or in the innermost open component.
- `Walk.neverEnds_iff`: endless walks, reentries, and the limit that is enough.
-/

namespace RouteRules

/-! ## Cycles -/

namespace Context

variable (c : Context)

/-- A component of the first name is in the catalogue, and refers to one of the second name. -/
def RefersTo (name other : String) : Prop :=
  ∃ r content target, c.settings.componentName r.path = .ok name ∧ c.content r = .ok content ∧
    target ∈ content.references ∧ c.settings.componentName target.path = .ok other

/-- The schema itself refers to a component of this name. -/
def SchemaRefersTo (schema : Schema) (name : String) : Prop :=
  ∃ target ∈ schema.references, c.settings.componentName target.path = .ok name

/-- Starting from the references of the schema, no chain of references leads into a cycle. -/
def Acyclic (schema : Schema) : Prop :=
  ∀ first name, c.SchemaRefersTo schema first → Relation.ReflTransGen c.RefersTo first name →
    ¬ Relation.TransGen c.RefersTo name name

end Context

namespace Walk

variable {c : Context} {root : Schema}

/-! ## Where the references of a walk come from -/

/-- The references in a task. -/
def Task.references : {k : Kind} → Task k → List Reference
  | _, .fields schema => schema.references
  | _, .expr schema => schema.references
  | _, .each schemas => Schema.referencesOfAll schemas
  | _, .component r => [r]

/-- The reference stands in the innermost open component, or in the schema `root` if none is
open. -/
def Stack.Holds (c : Context) (root : Schema) (target : Reference) : {k : Kind} → Stack k → Prop
  | _, .done => target ∈ root.references
  | _, .key _ below => below.Holds c root target
  | _, .array _ below => below.Holds c root target
  | _, .object _ below => below.Holds c root target
  | _, .rest _ below => below.Holds c root target
  | _, .after _ below => below.Holds c root target
  | _, .component r _ => ∃ content, c.content r = .ok content ∧ target ∈ content.references

/-- Every part of the stack comes from what was open below it. -/
def Stack.Grounded (c : Context) (root : Schema) : {k : Kind} → Stack k → Prop
  | _, .done => True
  | _, .key _ below => below.Grounded c root
  | _, .array _ below => below.Grounded c root
  | _, .object _ below => below.Grounded c root
  | _, .rest schemas below =>
    (∀ target ∈ Schema.referencesOfAll schemas, below.Holds c root target) ∧ below.Grounded c root
  | _, .after _ below => below.Grounded c root
  | _, .component r below => below.Holds c root r ∧ below.Grounded c root

/-- The invariant of a walk through `root`. -/
def State.Grounded (c : Context) (root : Schema) : State → Prop
  | .call task stack =>
    (∀ target ∈ task.references, stack.Holds c root target) ∧ stack.Grounded c root
  | .give _ stack => stack.Grounded c root
  | .ended _ => True

theorem grounded_start (c : Context) (root : Schema) : (start root).Grounded c root :=
  ⟨fun _ htarget => htarget, trivial⟩

theorem grounded_back {k : Kind} {stack : Stack k} (h : stack.Grounded c root)
    (outcome : Except Fault k.Result) : (State.back outcome stack).Grounded c root := by
  cases outcome with
  | ok result => exact h
  | error fault => trivial

/-- Every move keeps the invariant. -/
theorem grounded_move {s t : State} (h : Move c s t) (hs : s.Grounded c root) :
    t.Grounded c root := by
  -- As long as no component is opened or closed, the references in hand stand in the innermost one.
  cases h with
  | fieldsReference => exact hs
  | fieldsOther _ => exact hs
  | exprReference => exact hs
  -- Without a replacement, the references of an array or object are those of its parts.
  | exprArray hnull =>
    simp only [State.Grounded, Task.references, Schema.references, if_pos hnull] at hs
    exact hs
  | exprObject hnull =>
    simp only [State.Grounded, Task.references, Schema.references, if_pos hnull] at hs
    exact hs
  | exprWritten _ => exact grounded_back hs.2 _
  | eachNil => exact hs.2
  -- The first schema is called and the rest waits on the stack, both with references from here.
  | eachCons =>
    obtain ⟨htask, hstack⟩ := hs
    refine ⟨fun target htarget => ?_, fun target htarget => ?_, hstack⟩
    · exact htask target (List.mem_append_left _ htarget)
    · exact htask target (List.mem_append_right _ htarget)
  | componentFault _ => trivial
  -- The component that opens is now the innermost one, and stood in the one before it.
  | componentAlias hcontent =>
    exact ⟨fun target htarget => ⟨_, hcontent, htarget⟩, hs.1 _ (List.mem_singleton_self _), hs.2⟩
  | componentProperties hcontent =>
    exact ⟨fun target htarget => ⟨_, hcontent, htarget⟩, hs.1 _ (List.mem_singleton_self _), hs.2⟩
  | @giveKey e info stack =>
    have hbelow : stack.Grounded c root := hs
    exact grounded_back hbelow _
  | giveArray => exact hs
  | giveObject => exact hs
  | giveRest => exact hs
  | giveAfter => exact hs
  -- When it closes, what is below it is grounded as before.
  | giveComponent => exact hs.2
  | giveDone => trivial
  | ended => trivial

theorem grounded_run {s : State} (hs : s.Grounded c root) (n : Nat) :
    (run c n s).Grounded c root := by
  induction n with
  | zero => exact hs
  | succ n ih =>
    rw [run_succ]
    exact grounded_move (move_step c _) ih

/-! ## The chain of open components -/

/-- Every open component leads to what the innermost one holds. -/
theorem transGen_of_holds {k : Kind} {stack : Stack k} {target : Reference} {name other : String}
    (hstack : stack.Grounded c root) (hholds : stack.Holds c root target)
    (htarget : c.settings.componentName target.path = .ok other) (hopen : name ∈ stack.names c) :
    Relation.TransGen c.RefersTo name other := by
  -- Down the stack, until the component of that name is the innermost one.
  induction stack generalizing target other with
  | done => cases hopen
  | key info below ih => exact ih hstack hholds htarget hopen
  | array modifiers below ih => exact ih hstack hholds htarget hopen
  | object modifiers below ih => exact ih hstack hholds htarget hopen
  | rest schemas below ih => exact ih hstack.2 hholds htarget hopen
  | after own below ih => exact ih hstack hholds htarget hopen
  | component r below ih =>
    -- The innermost open component refers to what it holds.
    obtain ⟨content, hcontent, hmem⟩ := hholds
    obtain ⟨inner, hinner, -⟩ := Context.name_of_content hcontent
    have hstep : c.RefersTo inner other := ⟨r, content, target, hinner, hcontent, hmem, htarget⟩
    simp only [Stack.names, hinner, Except.toOption, Option.toList, List.cons_append,
      List.nil_append] at hopen
    -- Either it is the one that was asked for, or one that was opened before leads to it.
    rcases List.mem_cons.mp hopen with rfl | hdeeper
    · exact .single hstep
    · exact (ih hstack.2 hstack.1 hinner hdeeper).tail hstep

/-- What the innermost open component holds can be reached from the references of the schema. -/
theorem reflTransGen_of_holds {k : Kind} {stack : Stack k} {target : Reference} {name : String}
    (hstack : stack.Grounded c root) (hholds : stack.Holds c root target)
    (htarget : c.settings.componentName target.path = .ok name) :
    ∃ first, c.SchemaRefersTo root first ∧ Relation.ReflTransGen c.RefersTo first name := by
  -- Down the stack, until no component is open and the references are those of the schema.
  induction stack generalizing target name with
  | done => exact ⟨name, ⟨target, hholds, htarget⟩, .refl⟩
  | key info below ih => exact ih hstack hholds htarget
  | array modifiers below ih => exact ih hstack hholds htarget
  | object modifiers below ih => exact ih hstack hholds htarget
  | rest schemas below ih => exact ih hstack.2 hholds htarget
  | after own below ih => exact ih hstack hholds htarget
  | component r below ih =>
    obtain ⟨content, hcontent, hmem⟩ := hholds
    obtain ⟨inner, hinner, -⟩ := Context.name_of_content hcontent
    obtain ⟨first, hfirst, hchain⟩ := ih hstack.2 hstack.1 hinner
    exact ⟨first, hfirst, hchain.tail ⟨r, content, target, hinner, hcontent, hmem, htarget⟩⟩

/-- Without a cycle of references, the walk comes back to no open component. -/
theorem not_reenters_of_acyclic (h : c.Acyclic root) : ¬ Reenters c (start root) := by
  rintro ⟨t, ⟨n, rfl⟩, hreentry⟩
  have hgrounded := grounded_run (grounded_start c root) n
  generalize run c n (start root) = t at hgrounded hreentry
  -- Only a call of a component can be a re-entry.
  cases t with
  | give result stack => cases hreentry
  | ended result => cases hreentry
  | call task stack =>
    cases task with
    | fields schema => cases hreentry
    | expr schema => cases hreentry
    | each schemas => cases hreentry
    | component r =>
      obtain ⟨name, hname, hopen⟩ := hreentry
      -- The component refers to itself by way of those that were opened after it.
      obtain ⟨htask, hstack⟩ := hgrounded
      have hholds := htask r (List.mem_singleton_self r)
      obtain ⟨first, hfirst, hchain⟩ := reflTransGen_of_holds hstack hholds hname
      exact h first name hfirst hchain (transGen_of_holds hstack hholds hname hopen)

/-- Only cycles that are walked are endless, and a limit of the size of the catalogue is enough.

The walk of a schema never ends exactly if it comes to a component while that component is open,
and exactly then the compilation reports an endless walk. A walk that ends has the outcome of the
compilation under every limit from the size of the catalogue on. Where no cycle of references can be
reached from the schema, no endless walk is reported. -/
theorem neverEnds_iff (c : Context) (schema : Schema) :
    (NeverEnds c (start schema) ↔ Reenters c (start schema)) ∧
    (c.fields schema = .error .endlessReference ↔ NeverEnds c (start schema)) ∧
    (∀ result limit, EndsWith c (start schema) result → c.catalogue.size ≤ limit →
      schema.fields (c.expandWithin limit) = result) ∧
    (c.Acyclic schema → c.fields schema ≠ .error .endlessReference) := by
  have hiff : NeverEnds c (start schema) ↔ Reenters c (start schema) :=
    neverEnds_iff_reenters (.fields schema)
  -- The fault of the limit stands for a walk that the limit has cut off.
  have hfault : c.fields schema = .error .endlessReference ↔ NeverEnds c (start schema) := by
    rw [← not_settles_iff]
    exact (neverEnds_iff_not_settles (.fields schema) (Nat.le_refl _)).symm
  refine ⟨hiff, hfault, fun result limit hends hlimit => ?_, fun hacyclic hendless => ?_⟩
  · exact outcome_eq_of_endsWith (.fields schema) hlimit hends
  · exact not_reenters_of_acyclic hacyclic (hiff.mp (hfault.mp hendless))

/-- A component with a field that is a list of such components. -/
def tree : Context where
  settings := {}
  catalogue := .ofList [(.text "Tree", .object [("properties", .object
    [("branches", .object
      [("type", .text "array"), ("items", .object [("$ref", .text "Tree")])])])])]

/-- A field that is a tree. -/
def treeField : Schema :=
  .reference ⟨.text "t", .bool false, .null, .null, .null, .text ""⟩ ⟨.text "Tree", .null⟩

theorem neverEnds_iff_tree :
    NeverEnds tree (start treeField) ∧ Reenters tree (start treeField) ∧
      ¬ tree.Acyclic treeField := by
  obtain ⟨hreenters, hendless, -, hacyclic⟩ := neverEnds_iff tree treeField
  -- Outcomes are compared as to the fault only: expressions have no decidable equality.
  have hfault : tree.fields treeField = .error .endlessReference := by
    rw [← not_settles_iff]
    intro hsettles
    exact hsettles.map (fun _ => ()) (by decide +kernel)
  have hnever := hendless.mp hfault
  exact ⟨hnever, hreenters.mp hnever, fun h => hacyclic h hfault⟩

end Walk

end RouteRules
