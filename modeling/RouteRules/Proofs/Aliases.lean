import Mathlib.Logic.Relation
import RouteRules.Proofs.Route.Groups

/-!
# Other names for components

A reference means its path and nothing else: neither what is stated beside it nor the identifier it
hands on shows in what it stands for. A component that is itself a reference is another name for
what that reference leads to, and so is a whole chain of such components. Whatever is wrong at the
end of the chain is said of its last name.

## Main definitions

- `Context.Renames`: a component that is nothing but a reference.
- `Context.exprText`: the text of a schema as a value.
- `Context.Interchangeable`: references that have the same text wherever they stand.
- `Context.ReferenceFails`: references that have the same fault wherever they stand.

## Main statements

- `Context.content_of_read`: what a component is does not depend on the reference that names it.
- `Context.Renames.expand_eq`, `Context.expand_eq_of_chain`: one other name, and a chain of them.
- `Context.references_interchangeable`: all this, with the faults at the end of a chain.
-/

namespace RouteRules

/-- What is neither a reference nor an object with properties cannot be referred to. -/
theorem Schema.content?_eq_none {component : Schema} (href : component.isReference = false)
    (hobject : ∀ info first rest, component ≠ .object info (first :: rest)) :
    component.content? = none := by
  cases hcontent : component.content? with
  | none => rfl
  | some content =>
    cases content with
    | «alias» target =>
      obtain ⟨info, rfl⟩ := Schema.content?_eq_alias hcontent
      cases href
    | properties first rest =>
      obtain ⟨info, rfl⟩ := Schema.content?_eq_properties hcontent
      exact absurd rfl (hobject info first rest)

namespace Context

variable {c : Context}

/-! ## What a component is -/

/-- What a component is, by whatever reference it is named and wherever else it can be read. -/
theorem content_of_read {path v : Value} {name : String} {place : Place} {component : Schema}
    (hname : c.settings.componentName path = .ok name)
    (hfind : c.catalogue.find? (.text name) = some v)
    (hread : Schema.read c.settings place v = .ok component) (id : Value) :
    Content.unplaced <$> c.content ⟨path, id⟩ =
      match component.content? with
      | some content => .ok content.unplaced
      | none => .error (.noProperties (.text name)) := by
  have hresolve : c.resolve path id = Schema.read c.settings { path, name := id } v := by
    simp only [resolve, hname, ok_bind, hfind]
  -- Read under the reference, the component differs from `component` by paths, name and mark.
  have hsame := Schema.unplacedContent?_read c.settings { path, name := id } place v
  rw [hread, map_ok] at hsame
  obtain ⟨found, hfound, hcontent⟩ := map_eq_ok.mp hsame
  have hcontent : found.content?.map Content.unplaced =
      component.content?.map Content.unplaced := hcontent
  rw [content_eq, hresolve, hfound, ok_bind]
  -- Both have content that differs by paths, or neither has any.
  cases hcomponent : component.content? with
  | some content =>
    rw [hcomponent, Option.map_some] at hcontent
    obtain ⟨own, hown, hunplaced⟩ := Option.map_eq_some_iff.mp hcontent
    simp only [hown, map_ok, hunplaced]
  | none =>
    rw [hcomponent, Option.map_none, Option.map_eq_none_iff] at hcontent
    simp only [hcontent, hname, ok_bind, map_error]

/-- A component that cannot be read is at fault in the same way for every reference. -/
theorem content_of_read_error {path v : Value} {name : String} {place : Place} {fault : Fault}
    (hname : c.settings.componentName path = .ok name)
    (hfind : c.catalogue.find? (.text name) = some v)
    (hread : Schema.read c.settings place v = .error fault) (id : Value) :
    c.content ⟨path, id⟩ = .error fault := by
  have hresolve : c.resolve path id = Schema.read c.settings { path, name := id } v := by
    simp only [resolve, hname, ok_bind, hfind]
  -- A fault does not depend on the place of reading, so the reference meets the same one.
  have hsame := Schema.unplacedContent?_read c.settings { path, name := id } place v
  rw [hread, map_error] at hsame
  rw [content_eq, hresolve, map_eq_error.mp hsame, error_bind]

/-- The identifier that a reference hands on does not show in what it stands for. -/
theorem expand_operationId (path id id' : Value) : c.expand ⟨path, id⟩ = c.expand ⟨path, id'⟩ := by
  have hname : c.settings.componentName (Reference.mk path id).path =
      c.settings.componentName (Reference.mk path id').path := rfl
  exact expandWithin_congr hname c.catalogue.size

/-! ## Other names -/

/-- The component that `path` leads to is itself a reference, with the path `target`. -/
def Renames (c : Context) (path target : Value) : Prop :=
  ∃ name v place info id, c.settings.componentName path = .ok name ∧
    c.catalogue.find? (.text name) = some v ∧
    Schema.read c.settings place v = .ok (.reference info ⟨target, id⟩)

theorem Renames.content_eq {path target : Value} (h : c.Renames path target) (id : Value) :
    ∃ id', c.content ⟨path, id⟩ = .ok (.alias ⟨target, id'⟩) := by
  obtain ⟨name, v, place, info, id', hname, hfind, hread⟩ := h
  have hcontent := content_of_read hname hfind hread id
  simp only [Schema.content?, Content.unplaced] at hcontent
  obtain ⟨content, hcontent, halias⟩ := map_eq_ok.mp hcontent
  refine ⟨id', ?_⟩
  -- Taking the paths away keeps an alias an alias, with the target as it was.
  cases content with
  | «alias» other =>
    cases halias
    exact hcontent
  | properties first rest => cases halias

/-- Another name for a component stands for the same fields. -/
theorem Renames.expand_eq {path target : Value} (h : c.Renames path target) (id id' : Value) :
    c.expand ⟨path, id⟩ = c.expand ⟨target, id'⟩ := by
  obtain ⟨other, hcontent⟩ := h.content_eq id
  calc c.expand ⟨path, id⟩
      = c.expand ⟨target, other⟩ := by rw [Context.expand_eq, hcontent, ok_bind, Content.fields]
    _ = c.expand ⟨target, id'⟩ := expand_operationId target other id'

/-- So does a name for a name, and so on. -/
theorem expand_eq_of_chain {path last : Value} (h : Relation.ReflTransGen c.Renames path last)
    (id id' : Value) : c.expand ⟨path, id⟩ = c.expand ⟨last, id'⟩ := by
  -- On the number of names; the identifier is general because a name may hand on any.
  induction h generalizing id' with
  | refl => exact expand_operationId path id id'
  | tail _ hstep ih => exact (ih .null).trans (hstep.expand_eq .null id')

/-! ## References in every position -/

/-- The text of a schema as a value. -/
def exprText (c : Context) (schema : Schema) : Except Fault String :=
  (·.render c.validator) <$> c.expr schema

/-- References with these paths have the same text, or the same fault, in an enclosing object, as a
group of their own and as a value, whatever else belongs to them. -/
structure Interchangeable (c : Context) (path other : Value) : Prop where
  text_eq : ∀ info id info' id',
    c.text (.reference info ⟨path, id⟩) = c.text (.reference info' ⟨other, id'⟩)
  memberText_eq : ∀ info id info' id',
    c.memberText (.reference info ⟨path, id⟩) = c.memberText (.reference info' ⟨other, id'⟩)
  exprText_eq : ∀ info id info' id',
    c.exprText (.reference info ⟨path, id⟩) = c.exprText (.reference info' ⟨other, id'⟩)

/-- References with this path have this fault in every position. -/
structure ReferenceFails (c : Context) (path : Value) (fault : Fault) : Prop where
  text_eq : ∀ info id, c.text (.reference info ⟨path, id⟩) = .error fault
  memberText_eq : ∀ info id, c.memberText (.reference info ⟨path, id⟩) = .error fault
  exprText_eq : ∀ info id, c.exprText (.reference info ⟨path, id⟩) = .error fault

/-- A reference shows nothing but the fields that it stands for. -/
theorem interchangeable_of_expand {path other : Value}
    (h : ∀ id id', c.expand ⟨path, id⟩ = c.expand ⟨other, id'⟩) : c.Interchangeable path other := by
  have hfields : ∀ info id info' id', c.fields (.reference info ⟨path, id⟩) =
      c.fields (.reference info' ⟨other, id'⟩) := fun info id info' id' => h id id'
  -- In the first two positions the fields are shown as they are, in the third as an object of them.
  constructor
  case text_eq =>
    intro info id info' id'
    rw [text, text, hfields info id info' id']
  case memberText_eq =>
    intro info id info' id'
    exact congrArg (renderFields c.validator <$> ·) (hfields info id info' id')
  case exprText_eq =>
    intro info id info' id'
    rw [exprText, exprText, expr, expr, Schema.expr_reference, Schema.expr_reference, h id id']

/-- A reference that stands for no fields has the fault of its component. -/
theorem referenceFails_of_content {path : Value} {fault : Fault}
    (h : ∀ id, c.content ⟨path, id⟩ = .error fault) : c.ReferenceFails path fault := by
  have hexpand : ∀ id, c.expand ⟨path, id⟩ = .error fault := by
    intro id
    rw [expand_eq, h id, error_bind]
  have hfields : ∀ info id, c.fields (.reference info ⟨path, id⟩) = .error fault :=
    fun info id => hexpand id
  constructor
  case text_eq =>
    intro info id
    rw [text, hfields, map_error]
  case memberText_eq =>
    intro info id
    exact map_eq_error.mpr (hfields info id)
  case exprText_eq =>
    intro info id
    rw [exprText, expr, Schema.expr_reference, hexpand, map_error, map_error]

theorem Interchangeable.fails {path other : Value} {fault : Fault}
    (h : c.Interchangeable path other) (hfails : c.ReferenceFails other fault) :
    c.ReferenceFails path fault where
  text_eq info id := (h.text_eq info id info id).trans (hfails.text_eq info id)
  memberText_eq info id := (h.memberText_eq info id info id).trans (hfails.memberText_eq info id)
  exprText_eq info id := (h.exprText_eq info id info id).trans (hfails.exprText_eq info id)

/-! ## What a reference means -/

/-- A reference means its path. Two references with one path have the same text, or the same fault,
in every position; so have a reference to another name and one to what this name leads to; and so
have the two ends of any chain of such names. If there is no component at the end of the chain, or
if it has no properties to refer to, the fault says so of the last name. -/
theorem references_interchangeable (c : Context) :
    (∀ path, c.Interchangeable path path) ∧
    (∀ path target, c.Renames path target → c.Interchangeable path target) ∧
    ∀ path last, Relation.ReflTransGen c.Renames path last →
      c.Interchangeable path last ∧
      ∀ name, c.settings.componentName last = .ok name →
        (c.catalogue.find? (.text name) = none →
          c.ReferenceFails path (.unknownComponent (.text name))) ∧
        ∀ v, c.catalogue.find? (.text name) = some v →
          (∀ place fault, Schema.read c.settings place v = .error fault →
            c.ReferenceFails path fault) ∧
          ∀ place component, Schema.read c.settings place v = .ok component →
            component.isReference = false →
            (∀ info first rest, component ≠ .object info (first :: rest)) →
            c.ReferenceFails path (.noProperties (.text name)) := by
  refine ⟨fun path => ?same, fun path target h => ?renamed, fun path last h => ?chain⟩
  case same => exact interchangeable_of_expand (expand_operationId path)
  case renamed => exact interchangeable_of_expand h.expand_eq
  case chain =>
    -- Faults at the last name carry over to the first, since the two ends are interchangeable.
    have hends := interchangeable_of_expand (expand_eq_of_chain h)
    refine ⟨hends, fun name hname => ⟨fun hnone => ?unknown, fun v hfind => ⟨?unread, ?bare⟩⟩⟩
    case unknown =>
      apply hends.fails
      apply referenceFails_of_content
      intro id
      simp only [content_eq, resolve, hname, ok_bind, hnone, throw_eq_error, error_bind]
    case unread =>
      intro place fault hread
      exact hends.fails (referenceFails_of_content (content_of_read_error hname hfind hread))
    case bare =>
      intro place component hread href hobject
      -- The component is read but is neither a reference nor an object with properties.
      have hnone := Schema.content?_eq_none href hobject
      apply hends.fails
      apply referenceFails_of_content
      intro id
      have hcontent := content_of_read hname hfind hread id
      rw [hnone] at hcontent
      exact map_eq_error.mp hcontent

/-! ## A directory -/

def directoryPath (name : String) : Value := .text ("#/components/schemas/" ++ name)

/-- A catalogue in which a manager is another name for an employee, and an employee, under `schema`,
for a person. An owner is another name for a company, which is not there. -/
def directory : Context where
  settings := {}
  catalogue := .ofList
    [(.text "Manager", .object [("$ref", directoryPath "Employee"), ("required", .bool true)]),
     (.text "Employee", .object [("operationId", .text "employ"),
       ("schema", .object [("$ref", directoryPath "Person")])]),
     (.text "Person", .object [("properties", .object
       [("age", .object [("type", .text "integer")])])]),
     (.text "Owner", .object [("$ref", directoryPath "Company")])]

/-- A manager is a person, in every position, and there is no company to be an owner. -/
theorem references_interchangeable_directory :
    Relation.ReflTransGen directory.Renames (directoryPath "Manager") (directoryPath "Person") ∧
      directory.Interchangeable (directoryPath "Manager") (directoryPath "Person") ∧
      (∃ t, directory.text (.reference ⟨.null, .null, .null, .null, .null, .null⟩
        ⟨directoryPath "Manager", .null⟩) = .ok t) ∧
      directory.ReferenceFails (directoryPath "Owner") (.unknownComponent (.text "Company")) := by
  have hmanager : directory.Renames (directoryPath "Manager") (directoryPath "Employee") :=
    ⟨"Manager", _, { path := .null }, _, _, rfl, rfl, Schema.read_of_reference rfl⟩
  have hemployee : directory.Renames (directoryPath "Employee") (directoryPath "Person") :=
    ⟨"Employee", _, { path := .null }, _, _, rfl, rfl, Schema.read_of_reference rfl⟩
  have howner : directory.Renames (directoryPath "Owner") (directoryPath "Company") :=
    ⟨"Owner", _, { path := .null }, _, _, rfl, rfl, Schema.read_of_reference rfl⟩
  have hchain := (Relation.ReflTransGen.single hmanager).tail hemployee
  obtain ⟨_, _, hchains⟩ := references_interchangeable directory
  refine ⟨hchain, (hchains _ _ hchain).1, by decide +kernel, ?_⟩
  exact ((hchains _ _ (.single howner)).2 "Company" (by decide +kernel)).1 (by decide +kernel)

end Context

end RouteRules
