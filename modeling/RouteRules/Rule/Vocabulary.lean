import RouteRules.Rule.Basic

/-!
# The vocabulary of rules

Rules and their wordings by name: what a rule says about arguments of any shape, and the entries
under which its wording is kept.

## Main definitions

- `Rule.Kind.label`: the name of a kind of rules.
- `Rule.ofArguments`: the rule of a kind about given arguments.
- `Rule.Kind.entry`: an entry of a rule's wording, filled in.
- `TextFormat.selectFrom`: the format of highest rank in any value that can be searched.
-/

namespace RouteRules

namespace Rule

/-- The name of a kind of rules. -/
def Kind.label : Kind → String
  | stringType => "StringTypeRule"
  | numberType => "NumberTypeRule"
  | integer => "IntegerRule"
  | format => "FormatRule"
  | pattern => "PatternRule"
  | members => "EnumRule"
  | minimum => "MinimumRule"
  | maximum => "MaximumRule"
  | required => "RequiredRule"
  | description => "DescriptionRule"
  | append => "AppendRule"

def Kind.all : List Kind :=
  [.stringType, .numberType, .integer, .format, .pattern, .members, .minimum, .maximum, .required,
    .description, .append]

/-- The kind of a name. What has no kind has no wording either. -/
def Kind.ofLabel (label : String) : Except Fault Kind :=
  match Kind.all.find? (·.label == label) with
  | some kind => .ok kind
  | none => .error (.missing ("No string templates found for " ++ label))

/-- The text of a member of an allow-list; null is the empty text. -/
def memberText : Value → Except Fault String
  | .null => .ok ""
  | v => v.literal

/-- The rule that restricts a text to a format. -/
def ofFormat (v : Value) : Except Fault Rule :=
  match v with
  | .text name =>
    match TextFormat.ofName? name with
    | some f => .ok (.format f)
    | none => .error (.missing name)
  | .scalar _ => .error (.missing v.display)
  | _ => .error .compositeKey

/-- The rule that restricts a value to the elements of `v`. -/
def ofMembers (v : Value) : Except Fault Rule := do
  let elements ← v.asElements
  return .members (← elements.mapM memberText)

/-- The rule of a kind about the given arguments. -/
def ofArguments : Kind → List Value → Except Fault Rule
  | .stringType, [v] => .ok (.stringType v.display)
  | .numberType, [v] => .ok (.numberType v.display)
  | .integer, [] => .ok .integer
  | .format, [v] => ofFormat v
  | .pattern, [v] => .ok (.pattern v.display)
  | .members, [v] => ofMembers v
  | .minimum, [v] => .minimum <$> v.literal
  | .maximum, [v] => .maximum <$> v.literal
  | .required, [] => .ok .required
  | .description, [v] => .ok (.description v.display)
  | .append, [v] => .ok (.append v.display)
  | _, _ => .error .wrongArity

/-- The rule with a name, about the given arguments. A name without a wording takes no arguments. -/
def ofLabel (label : String) (arguments : List Value) : Except Fault Rule :=
  match Kind.ofLabel label with
  | .ok kind => ofArguments kind arguments
  | .error fault => if arguments.isEmpty then .error fault else .error .wrongArity

/-- The wording of a kind with its slot filled from named parameters. -/
def Kind.expression (kind : Kind) (parameters : List (String × Value)) : Except Fault String :=
  match kind.template.slot with
  | none => .ok (kind.template.fill "")
  | some slot =>
    match parameters.lookup slot with
    | some v => .ok (kind.template.fill v.display)
    | none => .error (.missing slot)

/-- An entry of the wording of a kind: its expression, and for formats the table of their methods.
-/
def Kind.entry (kind : Kind) (key : Value) (parameters : List (String × Value)) :
    Except Fault Value :=
  match kind, key with
  | _, .text "expression" => .text <$> kind.expression parameters
  | .format, .text "methods" =>
    .ok (.object (TextFormat.all.map fun f => (f.name, .text f.method)))
  | _, .scalar _ =>
    .error (.missing
      ("Key '" ++ key.display ++ "' not found in templates for " ++ kind.label))
  | _, _ => .error .compositeKey

/-- An entry of the wording that a name stands for. Two names of parameters are taken. -/
def labelEntry (label : String) (key : Value) (parameters : List (String × Value)) :
    Except Fault Value := do
  -- The entry asked for, and the rule that is asked, already go by these names.
  if parameters.any fun p => p.1 == "key" || p.1 == "self" then throw .wrongArity
  (← Kind.ofLabel label).entry key parameters

end Rule

/-- The format of highest rank that occurs in a value: as an item of a list, inside a text, or as
a key of an object. -/
def TextFormat.selectFrom : Value → Except Fault (Option TextFormat)
  | .list formats => .ok (select formats)
  | .object entries => .ok (all.find? fun f => (entries.lookup f.name).isSome)
  | .text s => .ok (all.find? fun f => occursIn f.name.toList s.toList)
  | _ => .error .noElements
where
  /-- Whether the characters of `part` stand side by side in `whole`. -/
  occursIn (part : List Char) : List Char → Bool
    | [] => part.isEmpty
    | c :: cs => part.isPrefixOf (c :: cs) || occursIn part cs

end RouteRules
