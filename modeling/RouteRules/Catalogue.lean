import RouteRules.Schema.Reader
import RouteRules.Value.Pairs

/-!
# Catalogues of components

A `Catalogue` holds the schemas that references can name. It is part of the `Context` of a
compilation, beside the settings.

## Main definitions

- `Catalogue.ofValue`, `Catalogue.ofComponents`: catalogues that a document states.
- `Catalogue.lookup?`: the schema of a component, by any value as its name.
- `Settings.componentName`: the name of the component that a reference points to.
- `Context.resolve`: the schema of that component.
-/

namespace RouteRules

/-- The schemas of components by name. -/
abbrev Catalogue := Table Key Value

namespace Catalogue

/-- The catalogue that a value states; a blank value states the empty one. -/
def ofValue (v : Value) : Except Fault Catalogue := (v.orElse (.object [])).asTable

/-- The catalogue in the components of a document. -/
def ofComponents (components : Value) : Except Fault Catalogue := do
  let entries ← (components.orElse (.object [])).asObject
  ofValue (Value.field entries "schemas")

/-- The schema of the component with a name, if there is one. A list or an object is no name. -/
def lookup? (catalogue : Catalogue) (name : Value) : Except Fault (Option Value) :=
  match name.key? with
  | some key => .ok (catalogue.find? key)
  | none => .error .compositeKey

end Catalogue

/-- The name of the component that a reference points to: the reference without its root. A
reference that does not begin with the root is the name itself. -/
def Settings.componentName (s : Settings) (reference : Value) : Except Fault String :=
  match reference, s.referenceRoot with
  | .text path, .text root =>
    .ok <|
      if root.toList.isPrefixOf path.toList then String.ofList (path.toList.drop root.toList.length)
      else path
  | .text _, _ => .error .textExpected
  | _, _ => .error .referenceNotText

/-- What a compilation is done against. -/
structure Context where
  settings : Settings
  catalogue : Catalogue

/-- The schema of the component that a reference points to, read under the name `name`. -/
def Context.resolve (c : Context) (reference name : Value) : Except Fault Schema := do
  let component ← c.settings.componentName reference
  match c.catalogue.find? (.text component) with
  | none => throw (.unknownComponent (.text component))
  | some v => Schema.read c.settings { path := reference, name } v

end RouteRules
