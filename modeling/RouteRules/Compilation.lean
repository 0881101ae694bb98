import RouteRules.Catalogue
import RouteRules.Expr.Basic
import RouteRules.FieldName

/-!
# Compilation of schemas

A schema is compiled in one of two positions. As a value it becomes one expression. As a field it
becomes fields of the enclosing object: one under its own key, or, for a reference, the fields of
the component that the reference leads to.

References are followed through the catalogue, each into the components it opens. As many components
can be open at a time as there are components; one more reference has to lead back to an open one.

## Main definitions

- `Schema.expr`, `Schema.fields`: compilation when it is given what references stand for.
- `Context.expandWithin`: what a reference stands for, with a limit on open components.
- `Context.expr`, `Context.fields`, `Context.memberFields`: compilation in a context.
-/

namespace RouteRules

/-- What a reference stands for: the fields of a component. -/
abbrev Expansion := Reference → Except Fault (List Field)

/-- The expression of a schema that is no reference: its replacement, if it has one, or else its
definition. Under a replacement the definition is not looked at, and nothing is appended. -/
@[macro_inline]
def Info.expr (info : Info) (definition : Except Fault (List Rule → Expr)) : Except Fault Expr :=
  match info.replacement with
  | .null => do return (← definition) (info.modifiers true)
  | .text code => .ok (.verbatim code (info.modifiers false))
  | _ => .error .textExpected

/-- An expression as a field of its own. -/
def Info.fields (info : Info) (value : Except Fault Expr) : Except Fault (List Field) := do
  -- A fault in the value comes before one in the name.
  let e ← value
  let key ← FieldName.key info.name
  return [(key, e)]

mutual

/-- The expression of a schema. A reference gets an object of its own around the fields it stands
for. -/
def Schema.expr (expand : Expansion) : Schema → Except Fault Expr
  | .reference _ target => do return .object (← expand target) []
  | .string info formats pattern members =>
    info.expr (.chain .string <$> stringConstraints formats pattern members)
  | .number info whole minimum maximum =>
    info.expr (.chain .number <$> numberConstraints whole minimum maximum)
  | .array info items => info.expr (.array <$> items.expr expand)
  | .bareArray info => info.expr (.error (.noItems info.name))
  | .object info [] => info.expr (.error (.noProperties info.name))
  | .object info (p :: ps) => info.expr (.object <$> fieldsOfAll expand (p :: ps))
  | .bareObject info => info.expr (.error (.noProperties info.name))
  | .unsupported info kind => info.expr (.error (.unsupportedType info.name kind))

/-- The fields of schemas, one after the other. -/
def Schema.fieldsOfAll (expand : Expansion) : List Schema → Except Fault (List Field)
  | [] => .ok []
  | schema :: rest => do
    let own ← match schema with
      -- The fields of a component take the place of the reference.
      | .reference _ target => expand target
      | other => other.info.fields (other.expr expand)
    return own ++ (← fieldsOfAll expand rest)

end

namespace Schema

/-- The fields that a schema contributes to the enclosing object. -/
def fields (expand : Expansion) : Schema → Except Fault (List Field)
  | .reference _ target => expand target
  | other => other.info.fields (other.expr expand)

theorem fieldsOfAll_cons (expand : Expansion) (schema : Schema) (rest : List Schema) :
    fieldsOfAll expand (schema :: rest) = do
      let own ← schema.fields expand
      return own ++ (← fieldsOfAll expand rest) := by
  cases schema <;> rfl

/-- The fields of a schema that is a group of its own: those of an object are the group's. -/
def memberFields (expand : Expansion) : Schema → Except Fault (List Field)
  | schema@(.object info properties) =>
    if info.replacement.isNull then
      if properties.isEmpty then .error (.noProperties info.name)
      else fieldsOfAll expand properties
    else schema.fields expand
  | schema@(.bareObject info) =>
    if info.replacement.isNull then .error (.noProperties info.name) else schema.fields expand
  | schema => schema.fields expand

end Schema

/-- What a component says it is. -/
inductive Content where
  /-- Another name for what a reference leads to. -/
  | alias (target : Reference)
  /-- An object with at least one property. -/
  | properties (first : Schema) (rest : List Schema)

/-- The fields of a component. -/
def Content.fields (expand : Expansion) : Content → Except Fault (List Field)
  | .alias target => expand target
  | .properties first rest => Schema.fieldsOfAll expand (first :: rest)

namespace Context

/-- What the component of a reference is. A component that is neither a reference nor an object with
properties cannot be referred to. -/
def content (c : Context) (r : Reference) : Except Fault Content := do
  match ← c.resolve r.path r.operationId with
  | .reference _ target => return .alias target
  | .object _ (first :: rest) => return .properties first rest
  | _ => throw (.noProperties (.text (← c.settings.componentName r.path)))

/-- The fields that a reference stands for, while at most `limit` components are open at a time. -/
def expandWithin (c : Context) : Nat → Expansion
  | 0, r => do
    -- With every component open, one that can be found is open already.
    let _ ← c.content r
    throw .endlessReference
  | limit + 1, r => do (← c.content r).fields (c.expandWithin limit)

/-- The fields that a reference stands for. -/
def expand (c : Context) : Expansion := c.expandWithin c.catalogue.size

/-- The expression of a schema. -/
def expr (c : Context) (schema : Schema) : Except Fault Expr := schema.expr c.expand

/-- The fields that a schema contributes to the enclosing object. -/
def fields (c : Context) (schema : Schema) : Except Fault (List Field) := schema.fields c.expand

/-- The fields of a schema that is a group of its own. -/
def memberFields (c : Context) (schema : Schema) : Except Fault (List Field) :=
  schema.memberFields c.expand

/-- The text of the object that expressions are built on. -/
def validator (c : Context) : String := c.settings.validator.display

end Context

end RouteRules
