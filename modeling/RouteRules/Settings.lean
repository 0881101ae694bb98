import RouteRules.Fault

/-!
# Settings

The five conventions of a compilation: the object that expressions are built on, and the names by
which documents refer to components, bodies and verbatim texts. Any value can be assigned to a
setting; what does not fit shows when the setting is used.

## Main definitions

- `Settings`: the settings, with their defaults.
- `Settings.assign`: one assignment by name. Names that are not settings are ignored, a few are
  reserved.
- `Settings.ofValue`, `Settings.exported`: from and to a document value.
-/

namespace RouteRules

/-- The conventions of a compilation. -/
structure Settings where
  /-- The object that every expression starts from. -/
  validator : Value := .text "Joi"
  /-- What a reference begins with; the rest of it is the name of a component. -/
  referenceRoot : Value := .text "#/components/schemas/"
  /-- The content type of the body that is compiled. -/
  bodyType : Value := .text "application/json"
  /-- The facet whose text is appended to an expression. -/
  appendKey : Value := .text "x-joi-add"
  /-- The facet whose text replaces an expression. -/
  replaceKey : Value := .text "x-joi-replace"
  /-- Whether the settings can still be exported. -/
  exportable : Bool := true
deriving DecidableEq, Inhabited

namespace Settings

/-- Assigns to a name that stands for a setting or for the export; other names change nothing. -/
def store (s : Settings) (name : String) (v : Value) : Settings :=
  match name with
  | "validator_name" => { s with validator := v }
  | "component_ref_prefix" => { s with referenceRoot := v }
  | "json_content_type" => { s with bodyType := v }
  | "add_extension" => { s with appendKey := v }
  | "replace_extension" => { s with replaceKey := v }
  -- The name of the export itself: once it stands for a value, it can no longer be called.
  | "to_dict" => { s with exportable := false }
  | _ => s

/-- Assigns to a name. Two reserved names refuse every value, and a third takes an object that
replaces all earlier assignments. -/
def assign (s : Settings) (name : String) (v : Value) : Except Fault Settings :=
  match name with
  | "__class__" => .error .brokenSettings
  | "__weakref__" => .error .fixedSetting
  | "__dict__" => match v with
    | .object entries => .ok (entries.foldl (fun t e => t.store e.1 e.2) {})
    | _ => .error .objectExpected
  | _ => .ok (s.store name v)

/-- Assigns in turn, up to the first refusal. What was assigned before it stays assigned. -/
def assignAll (s : Settings) : List (String × Value) → Settings × Option Fault
  | [] => (s, none)
  | (name, v) :: rest =>
    match s.assign name v with
    | .ok t => t.assignAll rest
    | .error fault => (s, some fault)

/-- The settings that an object describes; null stands for the defaults. -/
def ofValue : Value → Except Fault Settings
  | .null => .ok {}
  | v => do
    match assignAll {} (← v.asObject) with
    | (s, none) => return s
    | (_, some fault) => throw fault

/-- The five settings as an object. -/
def exported (s : Settings) : Except Fault Value :=
  if s.exportable then
    .ok <| .object
      [("validator_name", s.validator),
       ("component_ref_prefix", s.referenceRoot),
       ("json_content_type", s.bodyType),
       ("add_extension", s.appendKey),
       ("replace_extension", s.replaceKey)]
  else .error .brokenSettings

end Settings

end RouteRules
